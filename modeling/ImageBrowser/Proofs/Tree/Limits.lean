import ImageBrowser.Proofs.Cache.Listings
import ImageBrowser.Proofs.Smalltalk.References
import ImageBrowser.Proofs.Tree.Visits

/-!
Browsing methods under a limit that changes. The entry of a class holds the environments up to the
limit that was in force when it was fetched, and is cached under that limit, so that it answers for
no other one. Whatever limits were in force before, each side shows what the stone has for it up to
the limit that is in force, and nothing above it.
-/

namespace ImageBrowser

open Program (Meets)
open Smalltalk (Snippet SnippetKind)
open EnvironmentCategory (ofSide selectorsOf categorized)

theorem Value.eq_text_of_canonical {v : Value} {s : String} (same : v.canonical = .text s) :
    v = .text s := by
  cases v with
  | text t => exact same
  | fraction x =>
    simp only [canonical] at same
    split at same <;> cases same
  | _ => cases same

theorem Settings.limit_fst (s : Settings) : s.limit.1 = (limitOf? s.limitSource).getD 0 := by
  unfold limit
  cases limitOf? s.limitSource <;> rfl

theorem Tree.meets_limit_of_settings {o : Outlook} {inv : World → Prop} {bad : Fault → Prop}
    {settings : Settings} (same : ∀ w, inv w → w.settings = settings) :
    Meets o inv limit (· = settings.limit.1) bad := by
  refine .bind (P := (· = settings.limit)) (.step_with fun w holds => ⟨holds, ?_⟩) ?_
  · exact congrArg Settings.limit (same w holds)
  · rintro _ rfl
    dsimp only
    split
    · exact .bind (.log _) fun _ _ => .done rfl
    · exact .done rfl

/-! The records up to a limit -/

namespace EnvironmentCategory

variable {records : List EnvironmentCategory}

def shownOf (records : List EnvironmentCategory) (limit : Nat) (isMeta : Bool)
    (environment : Int) : List EnvironmentCategory :=
  if environment ≤ limit then ofSide records isMeta environment else []

theorem ofSide_filter_le (limit : Nat) (isMeta : Bool) (environment : Int) :
    ofSide (records.filter fun e => e.environment ≤ limit) isMeta environment =
      shownOf records limit isMeta environment := by
  unfold ofSide shownOf
  rw [List.filter_filter]
  split
  · next within =>
    apply List.filter_congr
    intro e _
    by_cases here : e.environment = environment
    · simp [here, within]
    · simp [here]
  · next above =>
    rw [List.filter_eq_nil_iff]
    intro e _
    by_cases here : e.environment = environment
    · simp [here, above]
    · simp [here]

end EnvironmentCategory

open EnvironmentCategory (shownOf)

def ClassPath.sidesUpTo (path : ClassPath) (limit : Nat) (isMeta : Bool) : List Node :=
  (List.range (limit + 1)).map fun e => .side ⟨path, .flag isMeta, .whole (Int.ofNat e)⟩

def Handle.listings (h : Handle) (index className : Value) (limit : Nat) :
    Program (List CategoryListing) := do
  let rows ← h.classEnvironments index className (.whole limit)
  return rows.map EnvironmentCategory.listing

namespace WorkingStone

def rowsAt (s : WorkingStone) (i : Int) (className : String) (limit : Int) :
    List EnvironmentCategory :=
  classEnvironmentsIn (Text.upTo Handle.maxResultSize
    (s.textOf (.classEnvironments i className limit)))

/-- Asked for the environments of a class up to a limit, the stone reports the records up to it, in
some order. -/
def Reports (s : WorkingStone) (i : Int) (className : String)
    (records : List EnvironmentCategory) : Prop :=
  ∀ limit : Nat,
    (s.rowsAt i className limit).Perm (records.filter fun e => e.environment ≤ limit)

/-- The entry holds what the stone reports of a class up to the limit that it is cached for. -/
def Reported (s : WorkingStone) : CacheKey → CacheEntry → Prop
  | .environments _ (.whole i) (.text className) (.whole limit), e =>
    ∃ read, Environments.ofListings
      ((s.rowsAt i className limit).map EnvironmentCategory.listing) = .ok read ∧
        e = .environments read
  | _, _ => True

structure Faithful (s : WorkingStone) (h : Handle) (settings : Settings) (w : World) : Prop where
  selected : w.selection.selectedHandle = some h
  settings : w.settings = settings
  idle : w.depth h.number = 0
  nobody : ∀ k, w.cache.inFlight.find? k = none
  reported : ∀ {k e}, w.cache.stored.find? k = some e → s.Reported k e

variable {s : WorkingStone} {h : Handle} {settings : Settings} {w v : World} {bad : Fault → Prop}

namespace Faithful

theorem congr (faithful : s.Faithful h settings w) (selection : v.selection = w.selection)
    (same : v.settings = w.settings) (depths : v.depths = w.depths) (cache : v.cache = w.cache) :
    s.Faithful h settings v where
  selected := by rw [selection, faithful.selected]
  settings := by rw [same, faithful.settings]
  idle := by rw [World.depth, depths]; exact faithful.idle
  nobody := by rw [cache]; exact faithful.nobody
  reported := by rw [cache]; exact faithful.reported

theorem spares : h.Spares (s.Faithful h settings) where
  idle faithful := faithful.idle
  of_resting faithful rests :=
    { selected := by rw [rests.selection, faithful.selected]
      settings := by rw [rests.settings, faithful.settings]
      idle := rests.1
      nobody := by rw [rests.cache]; exact faithful.nobody
      reported := by rw [rests.cache]; exact faithful.reported }

theorem meets_entry {k : CacheKey} {fetch : Program CacheEntry}
    (fetches : ∀ w : World, Meets s.outlook (w.Resting h.number 0) fetch (s.Reported k) bad) :
    Meets s.outlook (s.Faithful h settings) (Tree.entry k fetch) (s.Reported k) bad := by
  intro w faithful
  apply (Tree.ends_entry_alone faithful.nobody faithful.idle fetches).mono
  rintro outcome v (⟨e, stored, rfl, rfl⟩ | ⟨_, within, fetched⟩)
  · exact ⟨faithful, faithful.reported stored⟩
  refine ⟨⟨?_, ?_, fetched.idle, fetched.nobody, fetched.genuine faithful.reported within⟩, within⟩
  · rw [fetched.selection, faithful.selected]
  · rw [fetched.settings, faithful.settings]

end Faithful

theorem meets_listings (w : World) {index className : Value} {limit : Nat}
    (formed : ∀ f, SnippetKind.classEnvironments.snippet [index, className, .whole limit] =
      .error f → bad f) :
    Meets s.outlook (w.Resting h.number 0) (h.listings index className limit)
      (fun listings => ∃ snippet,
        SnippetKind.classEnvironments.snippet [index, className, .whole limit] = .ok snippet ∧
        listings = (classEnvironmentsIn (Text.upTo Handle.maxResultSize
          (s.textOf snippet))).map EnvironmentCategory.listing) bad := by
  have asked : Meets s.outlook (w.Resting h.number 0)
      (h.classEnvironments index className (.whole limit))
      (fun rows => ∃ snippet,
        SnippetKind.classEnvironments.snippet [index, className, .whole limit] = .ok snippet ∧
        rows = classEnvironmentsIn (Text.upTo Handle.maxResultSize (s.textOf snippet))) bad := by
    apply (meets_run formed).bind
    intro data ⟨snippet, made, same⟩
    exact .done ⟨snippet, made, congrArg classEnvironmentsIn same⟩
  apply asked.bind
  intro rows ⟨snippet, made, same⟩
  exact .done ⟨snippet, made, congrArg (List.map EnvironmentCategory.listing) same⟩

theorem meets_rows (w : World) (session index className : Value) (limit : Nat) :
    Meets s.outlook (w.Resting h.number 0)
      (do
        let read ← Program.ofExcept (Environments.ofListings (← h.listings index className limit))
        return CacheEntry.environments read)
      (s.Reported (.environments session index.canonical className.canonical (.whole limit)))
      fun _ => ¬ ((∃ i, index = .whole i) ∧ className.IsText) := by
  have formed : ∀ f, SnippetKind.classEnvironments.snippet [index, className, .whole limit] =
      .error f → ¬ ((∃ i, index = .whole i) ∧ className.IsText) := by
    rintro f failed ⟨⟨i, rfl⟩, name, rfl⟩
    cases failed
  apply (meets_listings w formed).bind
  intro listings ⟨snippet, made, same⟩
  obtain ⟨read, built⟩ := Environments.exists_ofListings
    (classEnvironmentsIn (Text.upTo Handle.maxResultSize (s.textOf snippet)))
  rw [same, built]
  refine .done ?_
  unfold Reported
  split
  · next i name limit' keyed =>
    obtain ⟨-, number, named, limited⟩ := CacheKey.environments.inj keyed
    obtain rfl := Value.eq_text_of_canonical named
    obtain rfl := Value.whole.inj limited
    have asked : SnippetKind.classEnvironments.snippet [index, .text name, .whole limit] =
        .ok (.classEnvironments i name limit) := by
      rw [SnippetKind.snippet, Value.asNumber_of_canonical number]
      rfl
    obtain rfl := Except.ok.inj (asked.symm.trans made)
    exact ⟨read, built, rfl⟩
  · trivial

theorem meets_environments (path : ClassPath) :
    Meets s.outlook (s.Faithful h settings) (Tree.environments h path)
      (fun e => ∀ i name, path.dictionary.index = .whole i → path.className = .text name →
        Environments.ofListings
          ((s.rowsAt i name settings.limit.1).map EnvironmentCategory.listing) = .ok e)
      fun _ => ¬ (path.dictionary.sessionId.IsText ∧ path.Placed) := by
  apply Meets.bind (Tree.meets_limit_of_settings fun w faithful => faithful.settings)
  rintro _ rfl
  have keyed : Within (fun _ => True) (fun _ => ¬ (path.dictionary.sessionId.IsText ∧ path.Placed))
      (CacheKey.ofClass path.dictionary.sessionId path.dictionary.index path.className
        (.whole settings.limit.1)) := by
    cases made : CacheKey.ofClass path.dictionary.sessionId path.dictionary.index path.className
      (.whole settings.limit.1) with
    | ok k => trivial
    | error f =>
      rintro ⟨⟨session, inSession⟩, ⟨i, number⟩, name, named⟩
      rw [inSession, number, named] at made
      cases made
  apply Meets.bind (.ofExcept keyed.itself)
  intro k made
  obtain rfl := CacheKey.eq_of_ofClass made
  refine .bind (Faithful.meets_entry fun w => ?_) fun e reported => .done ?_
  · exact (meets_rows w _ _ _ _).mono (fun _ => id) fun _ unplaced placed =>
      unplaced ⟨placed.2.index, placed.2.className⟩
  · intro i name number named
    rw [number, named] at reported
    obtain ⟨read, built, rfl⟩ := reported
    exact built

theorem Faithful.leaves_children (n : Tree.Notifier) (node : Option Node) :
    s.outlook.Leaves (s.Faithful h settings) (Tree.children n node) := by
  have dictionary (path : DictionaryPath) :
      s.outlook.Leaves (s.Faithful h settings) (Tree.classCategories h path) := by
    rw [Tree.classCategories_eq]
    refine .bind (P := fun _ => True) ?_ fun e _ => .ofExcept (Within.anything _)
    apply Meets.bind (.ofExcept (Within.itself (Within.anything _)))
    intro k made
    obtain rfl := CacheKey.eq_of_ofDictionary made
    refine .bind (Faithful.meets_entry fun w => ?_) fun e _ => .done trivial
    exact (meets_bindings w path.sessionId.canonical path.index).mono (fun _ _ => trivial)
      fun _ _ => trivial
  have below : s.outlook.Leaves (s.Faithful h settings) (Tree.childrenOf h node) :=
    leaves_childrenOf spares (fun path _ => dictionary path) fun path =>
      (meets_environments path).mono (fun _ _ => trivial) fun _ _ => trivial
  apply Meets.bind (P := (· = some h)) (.step_with fun w faithful => ⟨faithful, faithful.selected⟩)
  rintro _ rfl
  exact Outlook.meets_reported (fun _ _ faithful => faithful.congr rfl rfl rfl rfl) n trivial below

theorem Faithful.assign (faithful : s.Faithful h settings w) (limit : Value) :
    s.Faithful h { settings with override := limit }
      { w with settings := { w.settings with override := limit } } where
  selected := faithful.selected
  settings := by rw [← faithful.settings]
  idle := faithful.idle
  nobody := faithful.nobody
  reported := faithful.reported

theorem Faithful.ends_expansion (faithful : s.Faithful h settings w) (n : Tree.Notifier)
    {node : Option Node} {P : List Node → Prop}
    (below : Meets s.outlook (s.Faithful h settings) (Tree.childrenOf h node) P fun _ => False) :
    (Tree.children n node).Ends s.outlook w fun outcome _ =>
      ∃ rows, outcome = .ok rows ∧ P rows := by
  show (Program.step .selectedSession >>= _).Ends _ _ _
  rw [Program.ends_step_bind]
  simp only [World.step, faithful.selected]
  exact Program.ends_handling ((below w faithful).mono fun _ _ ended => ended.2.exists_ok)

theorem Faithful.ends_children (faithful : s.Faithful h settings w) (n : Tree.Notifier)
    {node : Option Node} {rows : List Node}
    (below : Meets s.outlook (s.Faithful h settings) (Tree.childrenOf h node) (· = rows)
      fun _ => False) :
    (Tree.children n node).Ends s.outlook w fun outcome _ => outcome = .ok rows := by
  apply (faithful.ends_expansion n below).mono
  rintro _ _ ⟨_, rfl, rfl⟩
  rfl

theorem Faithful.ends_refresh (faithful : s.Faithful h settings w) :
    Tree.refresh.Ends s.outlook w fun _ v => s.Faithful h settings v :=
  Outlook.ends_refresh (fun _ _ faithful => faithful.congr rfl rfl rfl rfl)
    ⟨faithful.selected, faithful.settings, faithful.idle, fun _ => rfl, nofun⟩

end WorkingStone

/-! What is shown of a class -/

structure Environments.Shows (e : Environments)
    (shown : Bool → Int → List EnvironmentCategory) : Prop where
  categoryNames (isMeta : Bool) (environment : Int) :
    e.categoryNames (.flag isMeta) (.whole environment) =
      .ok ((Text.sorted ((shown isMeta environment).map (·.category))).map .text)
  selectorsIn (isMeta : Bool) (environment : Int) (row : String) :
    e.selectorsIn (.flag isMeta) (.whole environment) (.text row) =
      .ok (Value.texts (selectorsOf (shown isMeta environment) row))
  categorizedSelectors (isMeta : Bool) (environment : Int) :
    ∃ pairs : List (String × String),
      e.categorizedSelectors (.flag isMeta) (.whole environment) =
        .ok (pairs.map Value.textPair) ∧
      pairs.Perm (categorized (shown isMeta environment)) ∧
      pairs.Pairwise fun p q => toLex p ≤ toLex q

namespace WorkingStone

variable {s : WorkingStone} {h : Handle} {settings : Settings} {w v : World} {i : Int}
  {name : String} {records : List EnvironmentCategory}

theorem Reports.shows (reports : s.Reports i name records) (apart : Environments.Apart records)
    {limit : Nat} {e : Environments}
    (built : Environments.ofListings
      ((s.rowsAt i name limit).map EnvironmentCategory.listing) = .ok e) :
    e.Shows (shownOf records limit) := by
  have perm := reports limit
  have apart : Environments.Apart (s.rowsAt i name limit) :=
    (perm.pairwise_iff Ne.symm).mpr (apart.filter _)
  obtain rfl := Except.ok.inj ((Environments.ofListings_records apart).symm.trans built)
  have shown (isMeta : Bool) (environment : Int) :
      (ofSide (s.rowsAt i name limit) isMeta environment).Perm
        (shownOf records limit isMeta environment) := by
    rw [← EnvironmentCategory.ofSide_filter_le]
    exact perm.filter _
  refine ⟨fun isMeta environment => ?_, fun isMeta environment row => ?_,
    fun isMeta environment => ?_⟩
  · rw [Environments.categoryNames_ofSide, Text.sorted_congr ((shown isMeta environment).map _)]
  · rw [Environments.selectorsIn_ofSide apart, EnvironmentCategory.selectorsOf_congr
      (Environments.distinct_ofSide apart isMeta environment) (shown isMeta environment)]
  · obtain ⟨pairs, answer, all, ascends⟩ :=
      Environments.categorizedSelectors_ofSide apart isMeta environment
    exact ⟨pairs, answer, all.trans ((shown isMeta environment).flatMap_right _), ascends⟩

theorem meets_sides (path : ClassPath) : Meets s.outlook (s.Faithful h settings) (Tree.sides path)
    (· = [.definition path, .comment path] ++ path.sidesUpTo settings.limit.1 false ++
      path.sidesUpTo settings.limit.1 true) fun _ => False := by
  apply Meets.bind (Tree.meets_limit_of_settings fun w faithful => faithful.settings)
  rintro _ rfl
  exact .done rfl

theorem exists_environments {path : ClassPath} (session : path.dictionary.sessionId.IsText)
    (index : path.dictionary.index = .whole i) (named : path.className = .text name) :
    ∃ e, Environments.ofListings
        ((s.rowsAt i name settings.limit.1).map EnvironmentCategory.listing) = .ok e ∧
      Meets s.outlook (s.Faithful h settings) (Tree.environments h path) (· = e)
        fun _ => False := by
  obtain ⟨e, built⟩ := Environments.exists_ofListings (s.rowsAt i name settings.limit.1)
  refine ⟨e, built, (meets_environments path).mono (fun read made => ?_) fun _ unplaced => ?_⟩
  · exact Except.ok.inj ((made i name index named).symm.trans built)
  · exact unplaced ⟨session, ⟨i, index⟩, name, named⟩

namespace Faithful

variable {path : ClassPath} {isMeta environment : Value} {e : Environments}
  (faithful : s.Faithful h settings w) (n : Tree.Notifier)
  (fetched : Meets s.outlook (s.Faithful h settings) (Tree.environments h path) (· = e)
    fun _ => False)

include faithful fetched

theorem ends_side {names : List String}
    (listed : e.categoryNames isMeta environment = .ok (names.map .text)) :
    (Tree.children n (some (.side ⟨path, isMeta, environment⟩))).Ends s.outlook w
      fun outcome _ => outcome =
        .ok ((allRow :: names).map fun row =>
          .category ⟨path, isMeta, environment⟩ (.text row)) := by
  refine faithful.ends_children n (fetched.bind ?_)
  rintro _ rfl
  rw [listed]
  exact .done (by simp)

theorem ends_category {row : String} {selectors : List String} (other : row ≠ allRow)
    (listed : e.selectorsIn isMeta environment (.text row) = .ok (Value.texts selectors)) :
    (Tree.children n (some (.category ⟨path, isMeta, environment⟩ (.text row)))).Ends s.outlook w
      fun outcome _ => outcome = .ok (selectors.map fun selector =>
        .method ⟨path, isMeta, environment⟩ (.text row) (.text selector)) := by
  refine faithful.ends_children n (fetched.bind ?_)
  rintro _ rfl
  have named : Value.text row ≠ .text allRow := fun same => other (Value.text.inj same)
  rw [Tree.methodsIn, if_neg named, Environments.selectorsWith_of_selectorsIn listed]
  exact .done (by simp)

theorem ends_allRow {pairs : List (String × String)}
    (listed : e.categorizedSelectors isMeta environment = .ok (pairs.map Value.textPair)) :
    (Tree.children n (some (.category ⟨path, isMeta, environment⟩ (.text allRow)))).Ends s.outlook w
      fun outcome _ => outcome = .ok (pairs.map fun p =>
        .method ⟨path, isMeta, environment⟩ (.text p.2) (.text p.1)) := by
  refine faithful.ends_children n (fetched.bind ?_)
  rintro _ rfl
  rw [Tree.methodsIn, if_pos rfl, listed]
  exact .done (by simp [Value.textPair])

end Faithful

end WorkingStone

/-! Histories of a tree and of its limit -/

inductive Use
  | assign (limit : Value)
  | refresh
  | expand (node : Option Node)

def Settings.after (settings : Settings) : List Use → Settings
  | [] => settings
  | .assign limit :: uses => { settings.after uses with override := limit }
  | .refresh :: uses | .expand _ :: uses => settings.after uses

inductive Used (o : Outlook) (w : World) : List Use → World → Prop
  | start : Used o w [] w
  | assign {uses : List Use} {v : World} (limit : Value) (used : Used o w uses v) :
      Used o w (.assign limit :: uses)
        { v with settings := { v.settings with override := limit } }
  | refresh {uses : List Use} {v u : World} {outcome : Except Fault Unit}
      (used : Used o w uses v) (runs : Tree.refresh.Runs o v outcome u) :
      Used o w (.refresh :: uses) u
  | expand {uses : List Use} {v u : World} {n : Tree.Notifier} {node : Option Node}
      {outcome : Except Fault (List Node)} (used : Used o w uses v)
      (runs : (Tree.children n node).Runs o v outcome u) :
      Used o w (.expand node :: uses) u

variable {s : WorkingStone} {h : Handle} {w v : World}

theorem WorkingStone.faithful_start (selected : w.selection.selectedHandle = some h)
    (idle : w.depth h.number = 0) (nothing : w.cache.stored = .empty)
    (nobody : w.cache.inFlight = .empty) : s.Faithful h w.settings w where
  selected := selected
  settings := rfl
  idle := idle
  nobody _ := by rw [nobody]; rfl
  reported stored := by
    rw [nothing] at stored
    exact nomatch stored

theorem Used.faithful {uses : List Use} (used : Used s.outlook w uses v)
    (start : s.Faithful h w.settings w) : s.Faithful h (w.settings.after uses) v := by
  induction used with
  | start => exact start
  | assign limit _ ih => exact ih.assign limit
  | refresh _ runs ih => exact ih.ends_refresh.of_runs runs
  | expand _ runs ih => exact ((WorkingStone.Faithful.leaves_children _ _ _ ih).of_runs runs).1

/-- Whatever limits were set, and whatever was refreshed and expanded before: a class has its sides
in the environments up to the limit in force, each side in one of these has the categories that the
records have there, in order, and each category its selectors. A side above the limit has none. -/
theorem methods_up_to_limit {i : Int} {name : String} {records : List EnvironmentCategory}
    (reports : s.Reports i name records) (apart : Environments.Apart records)
    (selected : w.selection.selectedHandle = some h) (idle : w.depth h.number = 0)
    (nothing : w.cache.stored = .empty) (nobody : w.cache.inFlight = .empty) {path : ClassPath}
    (session : path.dictionary.sessionId.IsText) (index : path.dictionary.index = .whole i)
    (named : path.className = .text name) {uses : List Use} (used : Used s.outlook w uses v)
    (n : Tree.Notifier) :
    let limit := (Settings.limitOf? (w.settings.after uses).limitSource).getD 0
    (Tree.children n (some (.cls path))).Ends s.outlook v (fun outcome _ => outcome =
      .ok ([.definition path, .comment path] ++ path.sidesUpTo limit false ++
        path.sidesUpTo limit true)) ∧
    ∀ isMeta environment,
      let side : SidePath := ⟨path, .flag isMeta, .whole environment⟩
      let shown := shownOf records limit isMeta environment
      (Tree.children n (some (.side side))).Ends s.outlook v (fun outcome _ => outcome =
        .ok ((allRow :: Text.sorted (shown.map (·.category))).map fun row =>
          .category side (.text row))) ∧
      (∀ row, row ≠ allRow →
        (Tree.children n (some (.category side (.text row)))).Ends s.outlook v
          fun outcome _ => outcome = .ok ((selectorsOf shown row).map fun selector =>
            .method side (.text row) (.text selector))) ∧
      (Tree.children n (some (.category side (.text allRow)))).Ends s.outlook v
        fun outcome _ => ∃ pairs : List (String × String),
          outcome = .ok (pairs.map fun p => .method side (.text p.2) (.text p.1)) ∧
          pairs.Perm (categorized shown) ∧ pairs.Pairwise fun p q => toLex p ≤ toLex q := by
  have faithful := used.faithful (WorkingStone.faithful_start selected idle nothing nobody)
  dsimp only
  rw [← Settings.limit_fst]
  refine ⟨faithful.ends_children n (WorkingStone.meets_sides path), fun isMeta environment => ?_⟩
  obtain ⟨e, built, fetched⟩ :=
    @WorkingStone.exists_environments s h (w.settings.after uses) i name path session index named
  have shows := reports.shows apart built
  obtain ⟨pairs, answer, all, ascends⟩ := shows.categorizedSelectors isMeta environment
  refine ⟨?_, fun row other => ?_, ?_⟩
  · exact faithful.ends_side n fetched (shows.categoryNames isMeta environment)
  · exact faithful.ends_category n fetched other (shows.selectorsIn isMeta environment row)
  · apply (faithful.ends_allRow n fetched answer).mono
    rintro _ _ rfl
    exact ⟨pairs, rfl, all, ascends⟩

/-! A class with methods in two environments -/

def orderMethods : List EnvironmentCategory :=
  [⟨false, 0, "accessing", ["total"]⟩, ⟨false, 1, "private", ["audit"]⟩]

def twoEnvironments : WorkingStone where
  result source := ⟨1, source, ""⟩
  text object :=
    if object.description = .text (Snippet.classEnvironments 1 "Order" 0).source then
      reportOf [["Order", "0", "accessing", "total"]]
    else reportOf [["Order", "0", "accessing", "total"], ["Order", "1", "private", "audit"]]

theorem textOf_twoEnvironments (snippet : Snippet) : twoEnvironments.textOf snippet =
    if Value.text snippet.source = .text (Snippet.classEnvironments 1 "Order" 0).source then
      reportOf [["Order", "0", "accessing", "total"]]
    else reportOf [["Order", "0", "accessing", "total"], ["Order", "1", "private", "audit"]] := rfl

theorem reports_twoEnvironments : twoEnvironments.Reports 1 "Order" orderMethods := by
  intro limit
  rw [WorkingStone.rowsAt, textOf_twoEnvironments]
  by_cases first : limit = 0
  · rw [first, if_pos (by rfl)]
    decide +kernel
  · have other : ¬ Value.text (Snippet.classEnvironments 1 "Order" limit).source =
        .text (Snippet.classEnvironments 1 "Order" 0).source := by
      intro same
      have equal := Snippet.limit_eq_of_source_eq (Value.text.inj same)
      omega
    have all : (orderMethods.filter fun e => e.environment ≤ (limit : Int)) = orderMethods := by
      rw [List.filter_eq_self]
      intro e mem
      have low : e.environment ≤ 1 := by
        revert e
        decide
      apply decide_eq_true
      omega
    rw [if_neg other, all]
    decide +kernel

def orderPath : ClassPath := ⟨globalsPath, .text "Order"⟩

def orderSide (environment : Int) : SidePath := ⟨orderPath, .flag false, .whole environment⟩

theorem methods_after_raise : ∃ v u,
    Used twoEnvironments.outlook browsingWorld
      [.assign (.whole 1), .expand (some (.side (orderSide 1)))] v ∧
    Used twoEnvironments.outlook browsingWorld
      [.assign (.text "none"), .expand (some (.side (orderSide 1))), .assign (.whole 1),
        .expand (some (.side (orderSide 1)))] u ∧
    (Tree.children .log (some (.side (orderSide 1)))).Ends twoEnvironments.outlook v
      (fun outcome _ => outcome = .ok [.category (orderSide 1) (.text allRow),
        .category (orderSide 1) (.text "private")]) ∧
    (Tree.children .log (some (.side (orderSide 1)))).Ends twoEnvironments.outlook u
      (fun outcome _ => outcome = .ok [.category (orderSide 1) (.text allRow)]) ∧
    (Tree.children .log (some (.category (orderSide 1) (.text "private")))).Ends
      twoEnvironments.outlook v (fun outcome _ =>
        outcome = .ok [.method (orderSide 1) (.text "private") (.text "audit")]) := by
  have apart : Environments.Apart orderMethods := by
    unfold Environments.Apart
    decide +kernel
  have index : orderPath.dictionary.index = .whole 1 := rfl
  have shows {uses v} (used : Used twoEnvironments.outlook browsingWorld uses v) :=
    methods_up_to_limit reports_twoEnvironments apart selected_browsingWorld rfl rfl rfl
      ⟨_, rfl⟩ index rfl used .log
  obtain ⟨_, v₁, first⟩ := ((shows .start).2 false 1).1.exists_runs
  have raised := (Used.start.expand first).assign (.whole 1)
  obtain ⟨_, v₂, second⟩ := ((shows raised).2 false 1).1.exists_runs
  have lowered := (raised.expand second).assign (.text "none")
  obtain ⟨_, atRaised⟩ := shows raised
  obtain ⟨_, atLowered⟩ := shows lowered
  have raisedMethods := (atRaised false 1).2.1 "private" (by decide)
  refine ⟨_, _, raised, lowered, (atRaised false 1).1.mono fun _ _ same => same.trans ?_,
    (atLowered false 1).1.mono fun _ _ same => same.trans ?_,
    raisedMethods.mono fun _ _ same => same.trans ?_⟩
  all_goals decide +kernel

end ImageBrowser
