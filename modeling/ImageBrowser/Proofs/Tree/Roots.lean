import ImageBrowser.Proofs.Cache.Operations
import ImageBrowser.Proofs.Cache.Readable
import ImageBrowser.Proofs.Calls.Working
import ImageBrowser.Proofs.Records.Reading
import ImageBrowser.Proofs.Text.Fronts
import ImageBrowser.Tree
import Mathlib.Algebra.Ring.Int.Defs

/-!
Which dictionaries of a symbol list the roots of the tree stand for. A root is numbered by its place
among the names that are read, and what it is expanded to is asked for by that number. Names that are
empty are not read, so those behind them are numbered too low, and stand for other dictionaries than
they are named after.
-/

namespace ImageBrowser

open Program (Meets)
open Smalltalk (Snippet)
open Text

/-! The cache of a session that nobody else uses -/

theorem Program.ends_handling {α : Type} {o : Outlook} {w : World} {p : Program α}
    {handles : Fault → Bool} {handler : Fault → Program α} {post : α → World → Prop}
    (ends : p.Ends o w fun outcome v => ∃ a, outcome = .ok a ∧ post a v) :
    (p.handling handles handler).Ends o w fun outcome v => ∃ a, outcome = .ok a ∧ post a v := by
  show (p.attempt >>= _).Ends _ _ _
  rw [ends_bind, ends_attempt]
  apply ends.mono
  rintro _ v ⟨a, rfl, holds⟩
  exact ⟨a, rfl, holds⟩

namespace Tree

variable {s : WorkingStone} {h : Handle} {w : World} {k : CacheKey}

theorem ends_entry_owned {o : Outlook} {fetch : Program CacheEntry}
    {post : Except Fault CacheEntry → World → Prop} (missing : w.cache.stored.find? k = none)
    (nobody : w.cache.inFlight.find? k = none)
    (fetches : fetch.Ends o { w with cache := w.cache.register k } fun outcome v =>
      post outcome ((v.step (.settle k w.cache.nextTicket outcome)).2.step
        (.publish w.cache.nextTicket outcome)).2) :
    (entry k fetch).Ends o w post := by
  have request : w.cache.request k = (.owned w.cache.nextTicket, w.cache.register k) := by
    obtain ⟨_, stored, _⟩ | ⟨_, inFlight, _⟩ | ⟨_, _, same⟩ := w.cache.request_cases k
    · rw [missing] at stored
      contradiction
    · rw [nobody] at inFlight
      contradiction
    · exact same
  show (Program.step (.request k) >>= _).Ends _ _ _
  rw [Program.ends_step_bind]
  simp only [World.step, request]
  show (fetch.attempt >>= _).Ends _ _ _
  rw [Program.ends_bind, Program.ends_attempt]
  apply fetches.mono
  intro outcome v ended
  show (Program.step (.settle k w.cache.nextTicket outcome) >>= _).Ends _ _ _
  rw [Program.ends_step_bind]
  show (Program.step (.publish w.cache.nextTicket outcome) >>= _).Ends _ _ _
  rw [Program.ends_step_bind, Program.ends_ofExcept]
  exact ended

theorem ends_entry {fetch : Program CacheEntry} {e : CacheEntry}
    (missing : w.cache.stored.find? k = none) (nobody : w.cache.inFlight.find? k = none)
    (idle : w.depth h.number = 0)
    (yields : s.Yields h { w with cache := w.cache.register k } 0 fetch (· = e)) :
    (entry k fetch).Ends s.outlook w fun outcome v =>
      outcome = .ok e ∧ v.cache.stored.find? k = some e := by
  apply ends_entry_owned missing nobody
  apply (yields.ends idle).mono
  rintro _ v ⟨_, rfl, rfl, rests⟩
  refine ⟨rfl, ?_⟩
  have registered : v.cache.inFlight.find? k = some ⟨w.cache.nextTicket, v.cache.epoch⟩ := by
    rw [rests.cache, Cache.find?_inFlight_register, if_pos rfl, Cache.epoch_register]
  exact Cache.find?_stored_settle_self registered

/-- A fetch that nobody else could join is over: what it came to is cached, if it worked, and all
else is as before. -/
structure FetchedAlone (h : Handle) (k : CacheKey) (outcome : Except Fault CacheEntry)
    (w v : World) : Prop where
  selection : v.selection = w.selection
  settings : v.settings = w.settings
  idle : v.depth h.number = 0
  nobody : ∀ k', v.cache.inFlight.find? k' = none
  stored : ∀ k', v.cache.stored.find? k' =
    if k' = k then outcome.toOption else w.cache.stored.find? k'

theorem FetchedAlone.genuine {genuine : CacheKey → CacheEntry → Prop} {bad : Fault → Prop}
    {outcome : Except Fault CacheEntry} {v : World} (fetched : FetchedAlone h k outcome w v)
    (before : ∀ {k e}, w.cache.stored.find? k = some e → genuine k e)
    (within : Within (genuine k) bad outcome) {k' : CacheKey} {e : CacheEntry}
    (stored : v.cache.stored.find? k' = some e) : genuine k' e := by
  rw [fetched.stored] at stored
  split at stored
  · next same =>
    subst same
    cases outcome with
    | ok e' => exact Option.some.inj stored ▸ within
    | error f => contradiction
  · exact before stored

theorem ends_entry_alone {fetch : Program CacheEntry} {P : CacheEntry → Prop} {bad : Fault → Prop}
    (nobody : ∀ k', w.cache.inFlight.find? k' = none) (idle : w.depth h.number = 0)
    (fetches : ∀ w : World, Meets s.outlook (w.Resting h.number 0) fetch P bad) :
    (entry k fetch).Ends s.outlook w fun outcome v =>
      (∃ e, w.cache.stored.find? k = some e ∧ outcome = .ok e ∧ v = w) ∨
      (w.cache.stored.find? k = none ∧ Within P bad outcome ∧ FetchedAlone h k outcome w v) := by
  obtain ⟨e, stored, same⟩ | ⟨f, inFlight, _⟩ | ⟨missing, free, _⟩ := w.cache.request_cases k
  · show (Program.step (.request k) >>= _).Ends _ _ _
    rw [Program.ends_step_bind]
    simp only [World.step, same]
    exact .inl ⟨e, stored, rfl, rfl⟩
  · rw [nobody k] at inFlight
    contradiction
  apply ends_entry_owned missing free
  let owning : World := { w with cache := w.cache.register k }
  have rests : owning.Resting h.number 0 owning := ⟨idle, w.depths, w.resultClasses, rfl⟩
  apply (fetches owning owning rests).mono
  rintro outcome v ⟨rests, within⟩
  have cache : v.cache = w.cache.register k := rests.cache
  have registered : v.cache.inFlight.find? k = some ⟨w.cache.nextTicket, v.cache.epoch⟩ := by
    rw [cache, Cache.find?_inFlight_register, if_pos rfl, Cache.epoch_register]
  refine .inr ⟨missing, within, rests.selection, rests.settings, rests.1, fun k' => ?_,
    fun k' => ?_⟩
  · show (v.cache.settle k w.cache.nextTicket outcome).inFlight.find? k' = none
    rw [Cache.find?_inFlight_settle_of_registered registered, cache,
      Cache.find?_inFlight_register]
    split
    · rfl
    · exact nobody k'
  · show (v.cache.settle k w.cache.nextTicket outcome).stored.find? k' = _
    rw [Cache.find?_stored_settle_of_registered registered, cache]
    cases outcome with
    | ok e => rfl
    | error f =>
      show w.cache.stored.find? k' = if k' = k then none else w.cache.stored.find? k'
      by_cases same : k' = k
      · rw [if_pos same, same, missing]
      · rw [if_neg same]

end Tree

/-! Symbol lists -/

structure SymbolDictionary where
  name : String
  entries : List DictionaryEntry

/-- The names of a symbol list are written one a line, and the entries of a dictionary are written
when it is asked for by its place in the list. -/
structure WorkingStone.Holds (s : WorkingStone) (symbolList : List SymbolDictionary) : Prop where
  names : s.textOf .dictionaryNames = reportOf (symbolList.map fun d => [d.name])
  entries : ∀ (i : Nat) d, symbolList[i]? = some d →
    s.textOf (.dictionaryEntries (i + 1)) = reportOf (d.entries.map DictionaryEntry.row)

def rootAt (h : Handle) (i : Nat) (name : String) : Node :=
  .dictionary ⟨h.sessionId, .whole (i + 1), .text name⟩

theorem rootAt_inj {h : Handle} {i j : Nat} {a b : String} :
    rootAt h i a = rootAt h j b ↔ i = j ∧ a = b := by
  simp [rootAt]

/-- A root stands for the dictionary that it is named after. -/
def Addresses (symbolList : List SymbolDictionary) (h : Handle) (root : Node) : Prop :=
  ∃ (i : Nat) (d : SymbolDictionary), symbolList[i]? = some d ∧ root = rootAt h i d.name

section Roots

variable {s : WorkingStone} {h : Handle} {w : World} {symbolList : List SymbolDictionary}

theorem yields_selected (selected : w.selection.selectedHandle = some h) {depth : Int} :
    s.Yields h w depth Sessions.selected (· = some h) := by
  apply Meets.step_with
  intro v rests
  refine ⟨rests, ?_⟩
  rw [← selected, ← rests.selection]
  rfl

theorem yields_roots (n : Tree.Notifier) (selected : w.selection.selectedHandle = some h) :
    s.Yields h w 0 (Tree.children n none)
      fun roots => roots = (lines (upTo Handle.maxResultSize (s.textOf .dictionaryNames))).mapIdx
        (rootAt h) := by
  apply Meets.bind (yields_selected selected)
  rintro _ rfl
  apply WorkingStone.yields_handling
  refine .bind (P := fun names =>
    names = lines (upTo Handle.maxResultSize (s.textOf .dictionaryNames))) ?_ ?_
  · have made : Smalltalk.SnippetKind.dictionaryNames.snippet [] = .ok .dictionaryNames := rfl
    apply Meets.bind (WorkingStone.yields_run made)
    rintro _ rfl
    exact .done rfl
  · intro names same
    exact .done (congrArg (·.mapIdx (rootAt h)) same)

theorem addresses_iff_isPrefix {names : List String} :
    (∀ root ∈ names.mapIdx (rootAt h), Addresses symbolList h root) ↔
      names <+: symbolList.map (·.name) := by
  rw [List.prefix_iff_getElem?]
  constructor
  · intro addressed i inside
    have mem : rootAt h i names[i] ∈ names.mapIdx (rootAt h) :=
      List.mem_mapIdx.mpr ⟨i, inside, rfl⟩
    obtain ⟨j, d, found, same⟩ := addressed _ mem
    obtain ⟨rfl, named⟩ := rootAt_inj.mp same
    simp [found, named]
  · intro inFront root mem
    obtain ⟨i, inside, rfl⟩ := List.mem_mapIdx.mp mem
    have found := inFront i inside
    rw [List.getElem?_map, Option.map_eq_some_iff] at found
    obtain ⟨d, found, named⟩ := found
    exact ⟨i, d, found, by rw [named]⟩

def SymbolDictionary.bindings (d : SymbolDictionary) : List Binding :=
  (dictionaryEntriesIn (upTo Handle.maxResultSize
    (reportOf (d.entries.map DictionaryEntry.row)))).map DictionaryEntry.binding

variable {k : CacheKey} {i : Nat} {d : SymbolDictionary}

theorem yields_bindings (holds : s.Holds symbolList) (found : symbolList[i]? = some d) :
    s.Yields h w 0
      (do return (← h.dictionaryEntries (.whole (i + 1))).map DictionaryEntry.binding)
      (· = d.bindings) := by
  have made : Smalltalk.SnippetKind.dictionaryEntries.snippet [.whole (i + 1)] =
      .ok (.dictionaryEntries (i + 1)) := rfl
  refine .bind (P := fun entries => entries.map DictionaryEntry.binding = d.bindings) ?_ ?_
  · apply Meets.bind (WorkingStone.yields_run made)
    rintro _ rfl
    rw [holds.entries i d found]
    exact .done rfl
  · exact fun entries same => .done same

theorem exists_categories (d : SymbolDictionary) : ∃ c names,
    ClassCategories.ofBindings d.bindings = .ok c ∧ c.categoryNames = .ok names := by
  unfold SymbolDictionary.bindings
  generalize dictionaryEntriesIn _ = entries
  obtain ⟨c, made, readable⟩ := (ClassCategories.within_ofBindings entries).exists_ok
  obtain ⟨names, listed, -⟩ := readable.categoryNames.exists_ok
  exact ⟨c, names, made, listed⟩

theorem yields_entry {fetch : Program (List Binding)} {bindings : List Binding} {c : ClassCategories}
    {depth : Int} (yields : s.Yields h w depth fetch (· = bindings))
    (made : ClassCategories.ofBindings bindings = .ok c) :
    s.Yields h w depth
      (do
        let read ← Program.ofExcept (ClassCategories.ofBindings (← fetch))
        return CacheEntry.classCategories read)
      (· = .classCategories c) := by
  apply Meets.bind yields
  rintro _ rfl
  rw [made]
  exact .done rfl

theorem ends_expanding (n : Tree.Notifier) (name : String) (holds : s.Holds symbolList)
    (found : symbolList[i]? = some d) (selected : w.selection.selectedHandle = some h)
    (idle : w.depth h.number = 0)
    (keyed : CacheKey.ofDictionary h.sessionId (.whole (i + 1)) = .ok k)
    (missing : w.cache.stored.find? k = none) (nobody : w.cache.inFlight.find? k = none) :
    (Tree.children n (some (rootAt h i name))).Ends s.outlook w fun outcome v =>
      ∃ rows, outcome = .ok rows ∧ ∃ c, ClassCategories.ofBindings d.bindings = .ok c ∧
        v.cache.stored.find? k = some (.classCategories c) := by
  obtain ⟨c, names, made, listed⟩ := exists_categories d
  have fetches := yields_entry
    (yields_bindings (w := { w with cache := w.cache.register k }) (h := h) holds found) made
  show (Program.step .selectedSession >>= _).Ends _ _ _
  rw [Program.ends_step_bind]
  simp only [World.step, selected]
  apply Program.ends_handling
  show (Tree.classCategories h ⟨h.sessionId, .whole (i + 1), .text name⟩).Ends _ _ _
  unfold Tree.classCategories Tree.classCategoriesEntry
  rw [keyed]
  show ((Tree.entry k _ >>= _) >>= _).Ends _ _ _
  rw [Program.ends_bind, Program.ends_bind]
  apply (Tree.ends_entry missing nobody idle fetches).mono
  rintro _ v ⟨rfl, stored⟩
  show (Program.ofExcept c.categoryNames >>= _).Ends _ _ _
  rw [listed]
  exact ⟨_, rfl, c, made, stored⟩

theorem lines_names (areNames : ∀ d ∈ symbolList, '\n' ∉ d.name.toList) :
    lines (reportOf (symbolList.map fun d => [d.name])) =
      nonempty (symbolList.map (·.name)) := by
  have areLines : ∀ row ∈ symbolList.map fun d => [d.name],
      '\n' ∉ ("\t".intercalate row).toList := by
    intro row mem
    obtain ⟨d, among, rfl⟩ := List.mem_map.mp mem
    rw [String.intercalate_singleton]
    exact areNames d among
  rw [lines_reportOf areLines, List.map_map]
  simp [Function.comp_def]

/-- The roots are the names that are read, in their order, each expanded to the dictionary at its
index. Every root is expanded to the dictionary that it is named after exactly if the dictionaries
without a name come last; and a report that is too long loses the last roots, and may shorten the name
of one. -/
theorem roots_address_dictionaries (n : Tree.Notifier) (holds : s.Holds symbolList)
    (areNames : ∀ d ∈ symbolList, '\n' ∉ d.name.toList)
    (selected : w.selection.selectedHandle = some h) (idle : w.depth h.number = 0) :
    (Tree.children n none).Ends s.outlook w fun outcome v => ∃ names,
      outcome = .ok (names.mapIdx (rootAt h)) ∧
      CutShort IsFront names (nonempty (symbolList.map (·.name))) ∧
      ((s.textOf .dictionaryNames).length ≤ Handle.maxResultSize →
        ((∀ root ∈ names.mapIdx (rootAt h), Addresses symbolList h root) ↔
          symbolList.Pairwise fun a b => a.name = "" → b.name = "")) ∧
      ∀ (i : Nat) d name k, symbolList[i]? = some d →
        CacheKey.ofDictionary h.sessionId (.whole (i + 1)) = .ok k →
        v.cache.stored.find? k = none → v.cache.inFlight.find? k = none →
        (Tree.children n (some (rootAt h i name))).Ends s.outlook v fun outcome u =>
          ∃ rows, outcome = .ok rows ∧ ∃ c, ClassCategories.ofBindings d.bindings = .ok c ∧
            u.cache.stored.find? k = some (.classCategories c) := by
  apply ((yields_roots n selected).ends idle).mono
  rintro _ v ⟨roots, rfl, same, rests⟩
  refine ⟨_, congrArg Except.ok same, ?_, ?_, ?_⟩
  · rw [← lines_names areNames, ← holds.names]
    exact cutShort_lines (isFront_upTo _ _)
  · intro fits
    rw [addresses_iff_isPrefix, upTo_of_length_le fits, holds.names, lines_names areNames,
      nonempty_isPrefix_iff, List.pairwise_map]
  · intro i d name k found keyed missing nobody
    have stillSelected : v.selection.selectedHandle = some h := by rw [rests.selection, selected]
    exact ends_expanding n name holds found stillSelected rests.1 keyed missing nobody

end Roots

/-! Two dictionaries -/

def twoDictionaries (first second : SymbolDictionary) : WorkingStone where
  result source := ⟨1, source, ""⟩
  text object :=
    if object.description = .text Snippet.dictionaryNames.source then
      reportOf [[first.name], [second.name]]
    else if object.description = .text (Snippet.dictionaryEntries 1).source then
      reportOf (first.entries.map DictionaryEntry.row)
    else reportOf (second.entries.map DictionaryEntry.row)

theorem textOf_twoDictionaries (first second : SymbolDictionary) (snippet : Snippet) :
    (twoDictionaries first second).textOf snippet =
      if Value.text snippet.source = .text Snippet.dictionaryNames.source then
        reportOf [[first.name], [second.name]]
      else if Value.text snippet.source = .text (Snippet.dictionaryEntries 1).source then
        reportOf (first.entries.map DictionaryEntry.row)
      else reportOf (second.entries.map DictionaryEntry.row) := rfl

theorem holds_twoDictionaries (first second : SymbolDictionary) :
    (twoDictionaries first second).Holds [first, second] := by
  have names : Value.text (Snippet.dictionaryEntries 1).source ≠
      .text Snippet.dictionaryNames.source := by decide +kernel
  have names' : Value.text (Snippet.dictionaryEntries 2).source ≠
      .text Snippet.dictionaryNames.source := by decide +kernel
  have indices : Value.text (Snippet.dictionaryEntries 2).source ≠
      .text (Snippet.dictionaryEntries 1).source := by decide +kernel
  constructor
  · exact (textOf_twoDictionaries first second _).trans (if_pos rfl)
  · intro i d found
    match i with
    | 0 =>
      obtain rfl := Option.some.inj found
      exact (textOf_twoDictionaries first second _).trans ((if_neg names).trans (if_pos rfl))
    | 1 =>
      obtain rfl := Option.some.inj found
      exact (textOf_twoDictionaries first second _).trans ((if_neg names').trans (if_neg indices))
    | i + 2 => contradiction

def browsingHandle : Handle := ⟨0, .text "session-1", ⟨.text "session-1"⟩⟩

def browsingWorld : World :=
  { selection :=
      { ({} : Selection).register browsingHandle .null with selected := some (.text "session-1") } }

theorem selected_browsingWorld : browsingWorld.selection.selectedHandle = some browsingHandle := by
  decide

theorem roots_address_named_dictionaries :
    let symbolList : List SymbolDictionary := [⟨"Globals", [⟨true, "Kernel", "Object"⟩]⟩, ⟨"", []⟩]
    (Tree.children .log none).Ends (twoDictionaries symbolList[0] symbolList[1]).outlook browsingWorld
      fun outcome _ => ∃ roots, outcome = .ok roots ∧
        ∀ root ∈ roots, Addresses symbolList browsingHandle root := by
  intro symbolList
  have holds := holds_twoDictionaries symbolList[0] symbolList[1]
  apply (roots_address_dictionaries .log holds (by decide) selected_browsingWorld rfl).mono
  rintro _ v ⟨names, rfl, -, addressed, -⟩
  have fits : ((twoDictionaries symbolList[0] symbolList[1]).textOf .dictionaryNames).length ≤
      Handle.maxResultSize := by
    rw [holds.names]
    decide
  exact ⟨_, rfl, (addressed fits).mpr (by decide)⟩

/-- Behind a dictionary without a name, the root of another one leads to the first. -/
theorem root_addresses_unnamed_dictionary :
    let symbolList : List SymbolDictionary :=
      [⟨"", [⟨true, "Kernel", "Object"⟩]⟩, ⟨"UserGlobals", [⟨true, "Orders", "Order"⟩]⟩]
    (Tree.children .log none).Ends (twoDictionaries symbolList[0] symbolList[1]).outlook browsingWorld
      fun outcome _ => outcome = .ok [rootAt browsingHandle 0 "UserGlobals"] ∧
        ¬Addresses symbolList browsingHandle (rootAt browsingHandle 0 "UserGlobals") := by
  intro symbolList
  have holds := holds_twoDictionaries symbolList[0] symbolList[1]
  have names : lines (upTo Handle.maxResultSize
      ((twoDictionaries symbolList[0] symbolList[1]).textOf .dictionaryNames)) = ["UserGlobals"] := by
    rw [holds.names]
    decide +kernel
  apply ((yields_roots .log selected_browsingWorld).ends rfl).mono
  rintro _ v ⟨roots, rfl, same, -⟩
  rw [names] at same
  refine ⟨congrArg Except.ok same, ?_⟩
  rintro ⟨i, d, found, same⟩
  obtain ⟨rfl, named⟩ := rootAt_inj.mp same
  obtain rfl := Option.some.inj found
  exact absurd named (by decide)

end ImageBrowser
