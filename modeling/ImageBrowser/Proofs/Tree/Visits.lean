import ImageBrowser.Proofs.Tree.Browsing
import ImageBrowser.Proofs.Tree.Reports
import ImageBrowser.Proofs.Tree.Roots

/-!
Whether the children of a node depend on what was expanded and refreshed before. A dictionary is
asked for whenever its entry is not cached, so that its node has the same children at any time. A
class category only looks at the cache: it has its children while its dictionary is listed, which
ends with the next refresh.
-/

namespace ImageBrowser

open Program (Meets Runs)
open Smalltalk (Snippet SnippetKind)

theorem Value.asNumber_of_canonical {v : Value} {i : Int} (same : v.canonical = .whole i) :
    v.asNumber = .ok i := by
  cases v with
  | flag b =>
    rw [← Value.whole.inj same]
    rfl
  | whole n =>
    rw [← Value.whole.inj same]
    rfl
  | fraction x =>
    cases x with
    | finite x =>
      simp only [canonical, Floating.whole?, Binary.whole?] at same
      split at same
      · next n whole =>
        split at whole
        · rw [← Value.whole.inj same, ← Option.some.inj whole]
          rfl
        · contradiction
      · contradiction
    | infinite _ | undefined => simp [canonical, Floating.whole?] at same
  | null | text _ | list _ | object _ => simp [canonical] at same

/-! Programs of which it only matters how they leave the state -/

namespace Outlook

variable {o : Outlook} {inv : World → Prop} {w : World} {α : Type}

abbrev Leaves (o : Outlook) (inv : World → Prop) (p : Program α) : Prop :=
  Meets o inv p (fun _ => True) fun _ => True

theorem leaves_reply {a : Action} {k : a.Reply → Except Fault α}
    (answered : ∀ w, ∃ r v, Answers w a r v ∧ o.admits a r)
    (after : ∀ {w v r}, inv w → Answers w a r v → inv v) :
    o.Leaves inv (Program.act a fun r => .ofExcept (k r)) := by
  intro w holds
  refine ⟨answered w, fun r v answers _ => ?_⟩
  exact (Program.ends_ofExcept _ _).mpr ⟨after holds answers, Within.anything _⟩

theorem leaves_notify (noted : ∀ w message, inv w → inv (w.step (.addNotice message)).2)
    (n : Tree.Notifier) (message : String) : o.Leaves inv (Tree.notify n message) := by
  cases n with
  | log => exact .log _
  | gather => exact .step fun w holds => noted w message holds
  | outside =>
    refine leaves_reply (fun w => ⟨.ok (), w, .report w message _, trivial⟩) ?_
    intro w v r holds answers
    cases answers
    exact holds

theorem meets_reported {h : Handle} {node : Option Node} {P : List Node → Prop}
    {bad : Fault → Prop} (noted : ∀ w message, inv w → inv (w.step (.addNotice message)).2)
    (n : Tree.Notifier) (nothing : P []) (listed : Meets o inv (Tree.childrenOf h node) P bad) :
    Meets o inv ((Tree.childrenOf h node).handling Fault.isExpected fun f => do
      Tree.notify n ("Browser query failed: " ++ f.message)
      return []) P fun _ => True :=
  listed.handling
    (fun f _ _ => (leaves_notify noted n ("Browser query failed: " ++ f.message)).bind
      fun _ _ => .done nothing)
    fun _ _ _ => trivial

theorem ends_handling {p : Program α} {handles : Fault → Bool} {handler : Fault → Program α}
    (ends : p.Ends o w fun _ v => inv v) (handled : ∀ f, o.Leaves inv (handler f)) :
    (p.handling handles handler).Ends o w fun _ v => inv v := by
  show (p.attempt >>= _).Ends _ _ _
  rw [Program.ends_bind, Program.ends_attempt]
  apply ends.mono
  intro outcome v holds
  cases outcome with
  | ok a => exact holds
  | error f =>
    show (if handles f then handler f else Program.fail f).Ends _ _ _
    split
    · exact (handled f v holds).mono fun _ _ ended => ended.1
    · exact holds

theorem leaves_tellAll {ℓ : Type} {tell : ℓ → Program Unit} (each : ∀ l, o.Leaves inv (tell l))
    (ls : List ℓ) : o.Leaves inv (tellAll tell ls) := by
  induction ls with
  | nil => exact .done trivial
  | cons l ls ih => exact .bind (each l) fun _ _ => ih

theorem ends_refresh (listening : ∀ w listeners, inv w → inv { w with treeListeners := listeners })
    (cleared : inv (w.step .clearCache).2) : Tree.refresh.Ends o w fun _ v => inv v := by
  have told (n : Nat) : o.Leaves inv (Program.tell n .treeChanged) := by
    refine leaves_reply (fun w => ⟨.ok (), w, .tell w n _ _, trivial⟩) ?_
    intro w v r holds answers
    cases answers
    exact holds
  have rest : o.Leaves inv (do
      Program.log (.cacheCleared (← Program.step .epoch))
      let listeners ← Program.step .beginTreeNotice
      (tellAll (fun l => Program.tell l .treeChanged) listeners).ensure
        (Program.step (.endTreeNotice listeners))) := by
    apply Meets.bind (.step fun _ holds => holds)
    intro epoch _
    apply Meets.bind (.log _)
    intro _ _
    refine Meets.bind (.step fun w holds => ?_) fun listeners _ => ?_
    · exact listening w _ holds
    · exact (leaves_tellAll told listeners).ensure (.step fun w holds => listening w _ holds)
  show (Program.step .clearCache >>= _).Ends _ _ _
  rw [Program.ends_step_bind]
  exact (rest _ cleared).mono fun _ _ ended => ended.1

end Outlook

/-- A condition on the state while a session is free, which calls in it do not touch. -/
structure Handle.Spares (h : Handle) (inv : World → Prop) : Prop where
  idle {w : World} : inv w → w.depth h.number = 0
  of_resting {w v : World} : inv w → w.Resting h.number 0 v → inv v

namespace WorkingStone

def bindingsAt (s : WorkingStone) (i : Int) : List Binding :=
  (dictionaryEntriesIn (Text.upTo Handle.maxResultSize
    (s.textOf (.dictionaryEntries i)))).map DictionaryEntry.binding

/-- The entry holds what the stone reports of the dictionary that it is cached for. -/
def Genuine (s : WorkingStone) : CacheKey → CacheEntry → Prop
  | .classCategories _ (.whole i), e =>
    ∃ c, ClassCategories.ofBindings (s.bindingsAt i) = .ok c ∧ e = .classCategories c
  | _, _ => True

structure Settled (s : WorkingStone) (h : Handle) (listed : Value → Int → Prop) (w : World) :
    Prop where
  selected : w.selection.selectedHandle = some h
  idle : w.depth h.number = 0
  nobody : ∀ k, w.cache.inFlight.find? k = none
  genuine : ∀ {k e}, w.cache.stored.find? k = some e → s.Genuine k e
  listed_iff : ∀ session i,
    (w.cache.stored.find? (.classCategories session (.whole i))).isSome ↔ listed session i

variable {s : WorkingStone} {h : Handle} {listed : Value → Int → Prop} {w v : World} {α : Type}
  {P : α → Prop} {bad : Fault → Prop}

namespace Settled

theorem of_resting (settled : s.Settled h listed w) (rests : w.Resting h.number 0 v) :
    s.Settled h listed v where
  selected := by rw [rests.selection, settled.selected]
  idle := rests.1
  nobody := by rw [rests.cache]; exact settled.nobody
  genuine := by rw [rests.cache]; exact settled.genuine
  listed_iff := by rw [rests.cache]; exact settled.listed_iff

theorem congr (settled : s.Settled h listed w) (selection : v.selection = w.selection)
    (depths : v.depths = w.depths) (cache : v.cache = w.cache) : s.Settled h listed v where
  selected := by rw [selection, settled.selected]
  idle := by rw [World.depth, depths]; exact settled.idle
  nobody := by rw [cache]; exact settled.nobody
  genuine := by rw [cache]; exact settled.genuine
  listed_iff := by rw [cache]; exact settled.listed_iff

theorem mono {listed' : Value → Int → Prop} (settled : s.Settled h listed w)
    (same : ∀ session i, listed session i ↔ listed' session i) : s.Settled h listed' w :=
  { settled with listed_iff := fun session i => (settled.listed_iff session i).trans (same _ _) }

theorem spares : h.Spares (s.Settled h listed) := ⟨idle, of_resting⟩

end Settled

theorem meets_of_resting {inv : World → Prop} {p : Program α} (spares : h.Spares inv)
    (meets : ∀ w : World, Meets s.outlook (w.Resting h.number 0) p P bad) :
    Meets s.outlook inv p P bad := by
  intro w holds
  have rests : w.Resting h.number 0 w := ⟨spares.idle holds, w.depths, w.resultClasses, rfl⟩
  exact (meets w w rests).mono fun _ _ ended => ⟨spares.of_resting holds ended.1, ended.2⟩

theorem meets_run {label : String} {kind : SnippetKind} {values : List Value}
    (formed : ∀ f, kind.snippet values = .error f → bad f) :
    Meets s.outlook (w.Resting h.number 0) (h.run label kind values)
      (fun data => ∃ snippet, kind.snippet values = .ok snippet ∧
        data = Text.upTo Handle.maxResultSize (s.textOf snippet)) bad := by
  cases made : kind.snippet values with
  | error f =>
    unfold Handle.run
    rw [made]
    exact .fail (formed f made)
  | ok snippet =>
    exact (yields_run made).mono (fun data same => ⟨snippet, rfl, same⟩) fun _ => False.elim

theorem ends_entry {k : CacheKey} {fetch : Program CacheEntry} (settled : s.Settled h listed w)
    (fetches : ∀ w : World, Meets s.outlook (w.Resting h.number 0) fetch (s.Genuine k) bad) :
    (Tree.entry k fetch).Ends s.outlook w fun outcome v =>
      Within (s.Genuine k) bad outcome ∧
        s.Settled h (fun session i => listed session i ∨
          (outcome.isOk ∧ k = .classCategories session (.whole i))) v := by
  apply (Tree.ends_entry_alone settled.nobody settled.idle fetches).mono
  rintro outcome v (⟨e, stored, rfl, rfl⟩ | ⟨missing, within, fetched⟩)
  · refine ⟨settled.genuine stored, settled.mono fun session i => ⟨.inl, ?_⟩⟩
    rintro (listed | ⟨_, rfl⟩)
    · exact listed
    · exact (settled.listed_iff session i).mp (by rw [stored]; rfl)
  have selected : v.selection.selectedHandle = some h := by
    rw [fetched.selection, settled.selected]
  refine ⟨within, selected, fetched.idle, fetched.nobody,
    fetched.genuine settled.genuine within, fun session i => ?_⟩
  rw [fetched.stored, ← settled.listed_iff]
  by_cases same : k = .classCategories session (.whole i)
  · subst same
    cases outcome <;> simp [missing, Except.toOption, Except.isOk, Except.toBool]
  · simp [same, Ne.symm same]

theorem meets_entry {k : CacheKey} {fetch : Program CacheEntry}
    (other : ∀ session i, k ≠ .classCategories session (.whole i))
    (fetches : ∀ w : World, Meets s.outlook (w.Resting h.number 0) fetch (s.Genuine k) bad) :
    Meets s.outlook (s.Settled h listed) (Tree.entry k fetch) (s.Genuine k) bad := by
  intro w settled
  apply (ends_entry settled fetches).mono
  rintro outcome v ⟨within, settled⟩
  refine ⟨settled.mono fun session i => ⟨?_, .inl⟩, within⟩
  rintro (listed | ⟨_, same⟩)
  · exact listed
  · exact absurd same (other session i)

/-! Nodes of all kinds -/

theorem leaves_fetch {label : String} {kind : SnippetKind} {values : List Value} {β : Type}
    {read : String → Program β} (w : World)
    (reads : ∀ data, s.outlook.Leaves (w.Resting h.number 0) (read data)) :
    s.outlook.Leaves (w.Resting h.number 0) (h.run label kind values >>= read) :=
  ((meets_run fun _ _ => trivial).mono (fun _ _ => trivial) fun _ => id).bind fun data _ =>
    reads data

theorem leaves_environments (path : ClassPath) :
    s.outlook.Leaves (s.Settled h listed) (Tree.environments h path) := by
  apply Meets.bind Tree.meets_limit
  intro limit _
  apply Meets.bind (.ofExcept (Within.itself (Within.anything _)))
  intro k keyed
  obtain rfl := CacheKey.eq_of_ofClass keyed
  refine .bind (meets_entry nofun fun w => ?_) fun e _ => .done trivial
  have reported : s.outlook.Leaves (w.Resting h.number 0) (do
      let rows ← h.classEnvironments path.dictionary.index path.className (.whole limit)
      return rows.map EnvironmentCategory.listing) :=
    .bind (leaves_fetch w fun data => .done trivial) fun rows _ => .done trivial
  apply reported.bind
  intro listings _
  exact .bind (.ofExcept (Within.anything (Environments.ofListings listings))) fun e _ =>
    .done trivial

theorem leaves_childrenOf {inv : World → Prop} {node : Option Node} (spares : h.Spares inv)
    (dictionary : ∀ path, node = some (.dictionary path) →
      s.outlook.Leaves inv (Tree.classCategories h path))
    (environments : ∀ path, s.outlook.Leaves inv (Tree.environments h path)) :
    s.outlook.Leaves inv (Tree.childrenOf h node) := by
  unfold Tree.childrenOf
  split
  · exact meets_of_resting spares fun w =>
      (leaves_fetch w fun data => .done trivial).bind fun names _ => .done trivial
  · next path => exact dictionary path rfl
  · next path row =>
    have cached : s.outlook.Leaves inv
        (Tree.cachedClassCategories path.sessionId path.index) :=
      .bind (.ofExcept (Within.anything _)) fun k _ =>
        .bind (.step fun w holds => holds) fun found _ => .done trivial
    apply cached.bind
    intro found _
    split
    · exact .done trivial
    · exact .ofExcept (Within.anything _)
  · exact .bind Tree.meets_limit fun limit _ => .done trivial
  · exact (environments _).bind fun e _ =>
      .bind (.ofExcept (Within.anything _)) fun names _ => .done trivial
  · exact (environments _).bind fun e _ =>
      .bind (.ofExcept (Within.anything _)) fun found _ => .done trivial
  · exact .done trivial

end WorkingStone

/-! Dictionaries and class categories -/

def Handle.bindings (h : Handle) (index : Value) : Program (List Binding) := do
  return (← h.dictionaryEntries index).map DictionaryEntry.binding

namespace Tree

def categoryRows (c : ClassCategories) (path : DictionaryPath) : Except Fault (List Node) := do
  let categories ← c.categoryNames
  let others := if c.globals.isEmpty then [] else [Value.text otherGlobalsRow]
  return (.text allRow :: categories ++ others).map (Node.classCategory path)

theorem classCategories_eq (h : Handle) (path : DictionaryPath) :
    classCategories h path = (do
      let e ← classCategoriesEntry path.sessionId path.index (h.bindings path.index)
      Program.ofExcept (categoryRows e path)) := by
  refine congrArg (classCategoriesEntry path.sessionId path.index (h.bindings path.index) >>= ·)
    (funext fun e => ?_)
  unfold categoryRows
  cases e.categoryNames <;> rfl

theorem exists_categoryRows {c : ClassCategories} (readable : c.Readable) (path : DictionaryPath) :
    ∃ rows, categoryRows c path = .ok rows := by
  obtain ⟨names, listed, _⟩ := readable.categoryNames.exists_ok
  exact ⟨_, by rw [categoryRows, listed]; rfl⟩

theorem exists_rowChildren {c : ClassCategories} (readable : c.Readable) (path : DictionaryPath)
    (row : String) : ∃ rows, rowChildren c path (.text row) = .ok rows := by
  unfold rowChildren
  split
  · exact ⟨_, rfl⟩
  dsimp only
  split
  · obtain ⟨names, listed, _⟩ := readable.allClassNames.exists_ok
    exact ⟨_, by rw [listed]; rfl⟩
  · obtain ⟨names, listed, _⟩ :=
      (readable.classNamesIn (Value.isText_text row)).exists_ok
    exact ⟨_, by rw [listed]; rfl⟩

end Tree

def Lists (node : Option Node) (session : Value) (i : Int) : Prop :=
  ∃ path, node = some (.dictionary path) ∧
    CacheKey.ofDictionary path.sessionId path.index = .ok (.classCategories session (.whole i))

namespace WorkingStone

variable {s : WorkingStone} {h : Handle} {listed : Value → Int → Prop} {w : World}

theorem exists_categoriesAt (s : WorkingStone) (i : Int) :
    ∃ c, ClassCategories.ofBindings (s.bindingsAt i) = .ok c ∧ c.Readable :=
  (ClassCategories.within_ofBindings _).exists_ok

theorem meets_bindings (w : World) (session index : Value) :
    Meets s.outlook (w.Resting h.number 0)
      (do
        let read ← Program.ofExcept (ClassCategories.ofBindings (← h.bindings index))
        return CacheEntry.classCategories read)
      (s.Genuine (.classCategories session index.canonical))
      fun _ => ∀ i, index.canonical ≠ .whole i := by
  by_cases number : ∃ i, index.canonical = .whole i
  · obtain ⟨i, same⟩ := number
    have made : SnippetKind.dictionaryEntries.snippet [index] = .ok (.dictionaryEntries i) := by
      rw [SnippetKind.snippet, Value.asNumber_of_canonical same]
      rfl
    have reported : s.Yields h w 0 (h.bindings index) (· = s.bindingsAt i) := by
      refine .bind (P := fun entries =>
        entries.map DictionaryEntry.binding = s.bindingsAt i) ?_ fun entries same => .done same
      exact .bind (yields_run made) fun data same => .done (by rw [same]; rfl)
    obtain ⟨c, built, _⟩ := s.exists_categoriesAt i
    rw [same]
    exact (yields_entry reported built).mono (fun e entry => ⟨c, built, entry⟩)
      fun _ => False.elim
  · have genuine (e : CacheEntry) : s.Genuine (.classCategories session index.canonical) e := by
      unfold Genuine
      split
      · next i same => exact absurd ⟨i, (CacheKey.classCategories.inj same).2⟩ number
      · trivial
    have reported : s.outlook.Leaves (w.Resting h.number 0) (h.bindings index) :=
      .bind (leaves_fetch w fun data => .done trivial) fun entries _ => .done trivial
    apply (reported.mono (fun _ => id) fun f _ i same => number ⟨i, same⟩).bind
    intro bindings _
    exact .bind (.ofExcept ((Within.anything (ClassCategories.ofBindings bindings)).mono
      (fun _ => id) fun f _ i same => number ⟨i, same⟩)) fun c _ => .done (genuine _)

theorem ends_classCategories (settled : s.Settled h listed w) (path : DictionaryPath) :
    (Tree.classCategories h path).Ends s.outlook w fun outcome v =>
      s.Settled h (fun session i =>
        listed session i ∨ Lists (some (.dictionary path)) session i) v ∧
        ∀ {session i c rows}, Lists (some (.dictionary path)) session i →
          ClassCategories.ofBindings (s.bindingsAt i) = .ok c →
          Tree.categoryRows c path = .ok rows → outcome = .ok rows := by
  rw [Tree.classCategories_eq]
  unfold Tree.classCategoriesEntry
  cases keyed : CacheKey.ofDictionary path.sessionId path.index with
  | error f =>
    have never {session i} : ¬ Lists (some (.dictionary path)) session i := by
      rintro ⟨_, same, lists⟩
      cases same
      rw [keyed] at lists
      contradiction
    exact ⟨settled.mono fun session i => (or_iff_left never).symm, fun lists => absurd lists never⟩
  | ok k =>
    have lists_iff {session i} : Lists (some (.dictionary path)) session i ↔
        k = .classCategories session (.whole i) := by
      constructor
      · rintro ⟨_, same, lists⟩
        cases same
        rw [keyed] at lists
        exact Except.ok.inj lists
      · rintro rfl
        exact ⟨path, rfl, keyed⟩
    obtain rfl := CacheKey.eq_of_ofDictionary keyed
    show ((Tree.entry _ _ >>= _) >>= _).Ends _ _ _
    rw [Program.ends_bind, Program.ends_bind]
    apply (ends_entry settled fun w => meets_bindings w path.sessionId.canonical path.index).mono
    rintro outcome v ⟨within, settled⟩
    cases outcome with
    | error f =>
      have never {session i} : ¬ Lists (some (.dictionary path)) session i := by
        intro lists
        exact within i (CacheKey.classCategories.inj (lists_iff.mp lists)).2
      refine ⟨settled.mono fun session i => ?_, fun lists => absurd lists never⟩
      simp [never, Except.isOk, Except.toBool]
    | ok e =>
      show (Program.ofExcept (Tree.categoryRows e.asClassCategories path)).Ends _ _ _
      rw [Program.ends_ofExcept]
      refine ⟨settled.mono fun session i => ?_, ?_⟩
      · simp [lists_iff, Except.isOk, Except.toBool]
      · intro session i c rows lists built listed
        rw [lists_iff.mp lists] at within
        obtain ⟨c', built', rfl⟩ := within
        obtain rfl := Except.ok.inj (built'.symm.trans built)
        exact listed

theorem ends_children (settled : s.Settled h listed w) (n : Tree.Notifier) (node : Option Node) :
    (Tree.children n node).Ends s.outlook w fun _ v =>
      s.Settled h (fun session i => listed session i ∨ Lists node session i) v := by
  show (Program.step .selectedSession >>= _).Ends _ _ _
  rw [Program.ends_step_bind]
  simp only [World.step, settled.selected]
  apply Outlook.ends_handling
  · by_cases dictionary : ∃ path, node = some (.dictionary path)
    · obtain ⟨path, rfl⟩ := dictionary
      exact (ends_classCategories settled path).mono fun _ _ ended => ended.1
    · have other (path : DictionaryPath) : node ≠ some (.dictionary path) :=
        fun same => dictionary ⟨path, same⟩
      apply (leaves_childrenOf Settled.spares (fun path same => absurd same (other path))
        leaves_environments w settled).mono
      rintro _ v ⟨settled, _⟩
      refine settled.mono fun session i => ⟨.inl, ?_⟩
      rintro (listed | ⟨path, same, _⟩)
      · exact listed
      · exact absurd same (other path)
  · intro f
    refine .bind (Outlook.leaves_notify ?_ n _) fun _ _ => .done trivial
    exact fun w _ settled => settled.congr rfl rfl rfl

theorem ends_refresh (settled : s.Settled h listed w) :
    Tree.refresh.Ends s.outlook w fun _ v => s.Settled h (fun _ _ => False) v :=
  Outlook.ends_refresh (fun _ _ settled => settled.congr rfl rfl rfl)
    ⟨settled.selected, settled.idle, fun _ => rfl, nofun, fun _ _ => ⟨nofun, False.elim⟩⟩

variable {path : DictionaryPath} {session : Value} {i : Int} {c : ClassCategories}
  {rows : List Node}

theorem ends_dictionary (settled : s.Settled h listed w) (n : Tree.Notifier)
    (lists : Lists (some (.dictionary path)) session i)
    (built : ClassCategories.ofBindings (s.bindingsAt i) = .ok c)
    (shown : Tree.categoryRows c path = .ok rows) :
    (Tree.children n (some (.dictionary path))).Ends s.outlook w fun outcome _ =>
      outcome = .ok rows := by
  show (Program.step .selectedSession >>= _).Ends _ _ _
  rw [Program.ends_step_bind]
  simp only [World.step, settled.selected]
  have found : (Tree.classCategories h path).Ends s.outlook w fun outcome _ =>
      ∃ a, outcome = .ok a ∧ a = rows :=
    (ends_classCategories settled path).mono fun _ _ ended =>
      ⟨rows, ended.2 lists built shown, rfl⟩
  apply (Program.ends_handling found).mono
  rintro _ _ ⟨_, rfl, rfl⟩
  rfl

theorem ends_classCategory (settled : s.Settled h listed w) (n : Tree.Notifier) {row : Value}
    (lists : Lists (some (.dictionary path)) session i)
    (built : ClassCategories.ofBindings (s.bindingsAt i) = .ok c)
    (shown : Tree.rowChildren c path row = .ok rows) :
    (Tree.children n (some (.classCategory path row))).Ends s.outlook w fun outcome _ =>
      (listed session i → outcome = .ok rows) ∧ (¬ listed session i → outcome = .ok []) := by
  show (Program.step .selectedSession >>= _).Ends _ _ _
  rw [Program.ends_step_bind]
  simp only [World.step, settled.selected]
  have found : (Tree.classes path row).Ends s.outlook w fun outcome _ =>
      ∃ a, outcome = .ok a ∧ (listed session i → a = rows) ∧ (¬ listed session i → a = []) := by
    obtain ⟨_, same, keyed⟩ := lists
    cases same
    unfold Tree.classes Tree.cachedClassCategories
    rw [keyed]
    show ((Program.step (.cached (.classCategories session (.whole i))) >>= _) >>= _).Ends _ _ _
    rw [Program.ends_bind, Program.ends_step_bind]
    have listed_iff := settled.listed_iff session i
    cases stored : w.cache.stored.find? (.classCategories session (.whole i)) with
    | none =>
      rw [stored] at listed_iff
      simp only [World.step, stored]
      refine ⟨[], rfl, fun listed => ?_, fun _ => rfl⟩
      exact absurd (listed_iff.mpr listed) (by simp)
    | some e =>
      rw [stored] at listed_iff
      obtain ⟨c', built', rfl⟩ := settled.genuine stored
      obtain rfl := Except.ok.inj (built'.symm.trans built)
      simp only [World.step, stored]
      show (Program.ofExcept (Tree.rowChildren c' path row)).Ends _ _ _
      rw [shown]
      exact ⟨rows, rfl, fun _ => rfl, fun other => absurd (listed_iff.mp rfl) other⟩
  apply (Program.ends_handling found).mono
  rintro _ _ ⟨a, rfl, whenListed, unlisted⟩
  exact ⟨fun listed => congrArg _ (whenListed listed), fun other => congrArg _ (unlisted other)⟩

end WorkingStone

/-! Histories of a tree -/

inductive Visit
  | refresh
  | expand (node : Option Node)

/-- What was done with the tree, the latest first, and the state that it led to. -/
inductive Visited (o : Outlook) (w : World) : List Visit → World → Prop
  | start : Visited o w [] w
  | refresh {visits : List Visit} {v u : World} {outcome : Except Fault Unit}
      (visited : Visited o w visits v) (runs : Tree.refresh.Runs o v outcome u) :
      Visited o w (.refresh :: visits) u
  | expand {visits : List Visit} {v u : World} {n : Tree.Notifier} {node : Option Node}
      {outcome : Except Fault (List Node)} (visited : Visited o w visits v)
      (runs : (Tree.children n node).Runs o v outcome u) :
      Visited o w (.expand node :: visits) u

/-- A dictionary with this number was expanded since the last refresh. -/
def Listed : List Visit → Value → Int → Prop
  | [], _, _ | .refresh :: _, _, _ => False
  | .expand node :: visits, session, i => Listed visits session i ∨ Lists node session i

variable {s : WorkingStone} {h : Handle} {w : World}

theorem WorkingStone.settled_start (selected : w.selection.selectedHandle = some h)
    (idle : w.depth h.number = 0) (nothing : w.cache.stored = .empty)
    (nobody : w.cache.inFlight = .empty) : s.Settled h (Listed []) w where
  selected := selected
  idle := idle
  nobody _ := by rw [nobody]; rfl
  genuine stored := by
    rw [nothing] at stored
    exact nomatch stored
  listed_iff _ _ := by
    rw [nothing]
    exact ⟨nofun, False.elim⟩

theorem Visited.settled {visits : List Visit} {v : World} (visited : Visited s.outlook w visits v)
    (start : s.Settled h (Listed []) w) : s.Settled h (Listed visits) v := by
  induction visited with
  | start => exact start
  | refresh _ runs ih => exact (WorkingStone.ends_refresh ih).of_runs runs
  | expand _ runs ih => exact (WorkingStone.ends_children ih _ _).of_runs runs

theorem DictionaryPath.Typed.lists {path : DictionaryPath} (typed : path.Typed) :
    ∃ i, Lists (some (.dictionary path)) path.sessionId i := by
  obtain ⟨⟨session, inSession⟩, ⟨i, number⟩, _⟩ := typed
  exact ⟨i, path, rfl, by rw [inSession, number]; rfl⟩

/-- A dictionary has the same children whatever was expanded and refreshed before, and so have its
class categories while it has been expanded since the last refresh. Otherwise they have none. -/
theorem children_by_visits (selected : w.selection.selectedHandle = some h)
    (idle : w.depth h.number = 0) (nothing : w.cache.stored = .empty)
    (nobody : w.cache.inFlight = .empty) {path : DictionaryPath} (typed : path.Typed) :
    ∃ i c categories, ∃ classesIn : String → List Node,
      Lists (some (.dictionary path)) path.sessionId i ∧
      ClassCategories.ofBindings (s.bindingsAt i) = .ok c ∧
      Tree.categoryRows c path = .ok categories ∧
      (∀ row, Tree.rowChildren c path (.text row) = .ok (classesIn row)) ∧
      ∀ {visits v}, Visited s.outlook w visits v → ∀ n,
        (Tree.children n (some (.dictionary path))).Ends s.outlook v
          (fun outcome _ => outcome = .ok categories) ∧
        ∀ row, (Tree.children n (some (.classCategory path (.text row)))).Ends s.outlook v
          fun outcome _ => (outcome = .ok (classesIn row) ∨ outcome = .ok []) ∧
            (outcome = .ok (classesIn row) ↔
              Listed visits path.sessionId i ∨ classesIn row = []) := by
  obtain ⟨i, lists⟩ := typed.lists
  obtain ⟨c, built, readable⟩ := s.exists_categoriesAt i
  obtain ⟨categories, shown⟩ := Tree.exists_categoryRows readable path
  choose classesIn rows using Tree.exists_rowChildren readable path
  refine ⟨i, c, categories, classesIn, lists, built, shown, rows, ?_⟩
  intro visits v visited n
  have settled := visited.settled (WorkingStone.settled_start selected idle nothing nobody)
  refine ⟨WorkingStone.ends_dictionary settled n lists built shown, fun row => ?_⟩
  apply (WorkingStone.ends_classCategory settled n lists built (rows row)).mono
  rintro outcome _ ⟨whenListed, unlisted⟩
  by_cases listed : Listed visits path.sessionId i
  · have same := whenListed listed
    exact ⟨.inl same, fun _ => .inl listed, fun _ => same⟩
  · have none := unlisted listed
    refine ⟨.inr none, fun same => .inr ?_, ?_⟩
    · rw [none] at same
      exact (Except.ok.inj same).symm
    · rintro (listed' | empty)
      · exact absurd listed' listed
      · rw [none, empty]

/-! One class -/

def oneClass : WorkingStone := twoDictionaries ⟨"Globals", [⟨true, "Kernel", "Object"⟩]⟩ ⟨"", []⟩

def globalsPath : DictionaryPath := ⟨.text "session-1", .whole 1, .text "Globals"⟩

def kernel : Node := .classCategory globalsPath (.text "Kernel")

def objectClass : Node := .cls ⟨globalsPath, .text "Object"⟩

theorem lists_globalsPath : Lists (some (.dictionary globalsPath)) (.text "session-1") 1 :=
  ⟨globalsPath, rfl, rfl⟩

theorem categoriesAt_oneClass : ClassCategories.ofBindings (oneClass.bindingsAt 1) =
    .ok ⟨[(.text "Kernel", [.text "Object"])], []⟩ := by
  have report : oneClass.textOf (.dictionaryEntries 1) =
      reportOf [DictionaryEntry.row ⟨true, "Kernel", "Object"⟩] :=
    (holds_twoDictionaries ⟨"Globals", [⟨true, "Kernel", "Object"⟩]⟩ ⟨"", []⟩).entries 0 _ rfl
  have bindings : oneClass.bindingsAt 1 = [⟨.flag true, .text "Kernel", .text "Object"⟩] := by
    unfold WorkingStone.bindingsAt
    rw [report]
    decide +kernel
  rw [bindings]
  cbv

theorem rowChildren_oneClass :
    Tree.rowChildren ⟨[(.text "Kernel", [.text "Object"])], []⟩ globalsPath (.text "Kernel") =
      .ok [objectClass] := by
  cbv

theorem children_by_visits_of_listed : ∃ v,
    Visited oneClass.outlook browsingWorld [.expand (some (.dictionary globalsPath))] v ∧
      (Tree.children .log (some kernel)).Ends oneClass.outlook v
        fun outcome _ => outcome = .ok [objectClass] := by
  have typed : globalsPath.Typed := ⟨⟨_, rfl⟩, ⟨_, rfl⟩, ⟨_, rfl⟩⟩
  obtain ⟨i, c, categories, classesIn, lists, built, _, rows, answers⟩ :=
    children_by_visits (s := oneClass) selected_browsingWorld rfl rfl rfl typed
  obtain rfl : i = 1 := by
    obtain ⟨_, same, keyed⟩ := lists
    cases same
    cases keyed
    rfl
  obtain rfl := Except.ok.inj (categoriesAt_oneClass.symm.trans built)
  have classes : classesIn "Kernel" = [objectClass] :=
    Except.ok.inj ((rows "Kernel").symm.trans rowChildren_oneClass)
  obtain ⟨_, v, runs⟩ := (answers .start .log).1.exists_runs
  have visited := Visited.start.expand runs
  refine ⟨v, visited, ?_⟩
  apply ((answers visited .log).2 "Kernel").mono
  rintro outcome _ ⟨_, same⟩
  rw [← classes]
  exact same.mpr (.inl (.inr lists))

/-- The class category that was found on the way from the roots has its class then, and none after a
refresh, while its dictionary still shows it. -/
theorem children_lost_by_refresh : ∃ v u,
    Visited oneClass.outlook browsingWorld
      [.expand (some (.dictionary globalsPath)), .expand none] v ∧
    Visited oneClass.outlook browsingWorld
      [.refresh, .expand (some (.dictionary globalsPath)), .expand none] u ∧
    (Tree.children .log none).Ends oneClass.outlook browsingWorld
      (fun outcome _ => outcome = .ok [.dictionary globalsPath]) ∧
    (Tree.children .log (some (.dictionary globalsPath))).Ends oneClass.outlook u
      (fun outcome _ => outcome = .ok
        [.classCategory globalsPath (.text allRow), kernel]) ∧
    (Tree.children .log (some kernel)).Ends oneClass.outlook v
      (fun outcome _ => outcome = .ok [objectClass]) ∧
    (Tree.children .log (some kernel)).Ends oneClass.outlook u
      fun outcome _ => outcome = .ok [] := by
  have start : oneClass.Settled browsingHandle (Listed []) browsingWorld :=
    WorkingStone.settled_start selected_browsingWorld rfl rfl rfl
  obtain ⟨_, w, roots⟩ := (WorkingStone.ends_children start .log none).exists_runs
  have atRoots := Visited.start.expand roots
  obtain ⟨_, v, lists⟩ := (WorkingStone.ends_children (atRoots.settled start) .log
    (some (.dictionary globalsPath))).exists_runs
  have atDictionary := atRoots.expand lists
  obtain ⟨_, u, refreshes⟩ := (WorkingStone.ends_refresh (atDictionary.settled start)).exists_runs
  have refreshed := atDictionary.refresh refreshes
  have before := WorkingStone.ends_classCategory (atDictionary.settled start) .log lists_globalsPath
    categoriesAt_oneClass rowChildren_oneClass
  have after := WorkingStone.ends_classCategory (refreshed.settled start) .log lists_globalsPath
    categoriesAt_oneClass rowChildren_oneClass
  refine ⟨v, u, atDictionary, refreshed, ?_, ?_, ?_, ?_⟩
  · have names : Text.lines (Text.upTo Handle.maxResultSize
        (oneClass.textOf .dictionaryNames)) = ["Globals"] := by
      have report : oneClass.textOf .dictionaryNames = reportOf [["Globals"], [""]] :=
        (holds_twoDictionaries _ _).names
      rw [report]
      decide +kernel
    apply ((yields_roots .log selected_browsingWorld).ends rfl).mono
    rintro _ _ ⟨_, rfl, same, _⟩
    rw [names] at same
    exact congrArg Except.ok same
  · exact WorkingStone.ends_dictionary (refreshed.settled start) .log lists_globalsPath
      categoriesAt_oneClass (by cbv)
  · exact before.mono fun _ _ ended => ended.1 (.inr lists_globalsPath)
  · exact after.mono fun _ _ ended => ended.2 id

end ImageBrowser
