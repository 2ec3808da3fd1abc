import ImageBrowser.Cache.Entry
import ImageBrowser.Proofs.Programs.Endings
import Mathlib.Data.List.Sort
import Mathlib.Data.Prod.Lex
import Mathlib.Data.String.Basic

/-!
What is read from a report is text, and whatever the tree asks of an entry made of texts has an
answer: texts can always be sorted, alone or in pairs, and every part of a key is a key.
-/

namespace ImageBrowser

def Text.sortedPairs (pairs : List (String × String)) : List (String × String) :=
  pairs.mergeSort fun p q => decide (toLex p ≤ toLex q)

theorem Text.sortedPairs_perm (pairs : List (String × String)) :
    (sortedPairs pairs).Perm pairs :=
  List.mergeSort_perm pairs _

theorem Text.pairwise_sortedPairs (pairs : List (String × String)) :
    (sortedPairs pairs).Pairwise fun p q => toLex p ≤ toLex q := by
  let inOrder (p q : String × String) : Bool := toLex p ≤ toLex q
  have sorted : (sortedPairs pairs).Pairwise fun p q => inOrder p q := by
    apply List.pairwise_mergeSort
    · intro a b c
      simpa [inOrder] using le_trans
    · intro a b
      simpa [inOrder] using le_total (toLex a) (toLex b)
  simpa [inOrder] using sorted

namespace Value

/-! Texts in order -/

def IsText (v : Value) : Prop := ∃ s, v = .text s

theorem isText_text (s : String) : (text s).IsText := ⟨s, rfl⟩

theorem IsText.isKey {v : Value} (isText : v.IsText) : v.isKey := by
  obtain ⟨s, rfl⟩ := isText
  rfl

theorem asKey_of_isKey {v : Value} (key : v.isKey) : v.asKey = .ok v := if_pos key

theorem asKey_text (s : String) : (text s).asKey = .ok (text s) := rfl

theorem exists_texts {vs : List Value} (areTexts : ∀ v ∈ vs, v.IsText) :
    ∃ names : List String, vs = names.map text := by
  induction vs with
  | nil => exact ⟨[], rfl⟩
  | cons v vs ih =>
    obtain ⟨s, rfl⟩ := areTexts v List.mem_cons_self
    obtain ⟨names, rfl⟩ := ih fun v mem => areTexts v (List.mem_cons_of_mem _ mem)
    exact ⟨s :: names, rfl⟩

theorem within_sorted {vs : List Value} (areTexts : ∀ v ∈ vs, v.IsText) :
    Within (fun sorted => ∀ v ∈ sorted, v.IsText) (fun _ => False) (sorted vs) := by
  obtain ⟨names, rfl⟩ := exists_texts areTexts
  rw [sorted_texts]
  intro v mem
  obtain ⟨s, _, rfl⟩ := List.mem_map.mp mem
  exact isText_text s

theorem mem_of_mem_dropRepeats {v : Value} {vs : List Value} (mem : v ∈ dropRepeats vs) :
    v ∈ vs := by
  induction vs with
  | nil => exact mem
  | cons w vs ih =>
    rcases List.mem_cons.mp mem with rfl | later
    · exact List.mem_cons_self
    · exact List.mem_cons_of_mem _ (ih ((List.dropWhile_sublist _).mem later))

theorem mem_of_mem_distinct {v : Value} {vs : List Value} (mem : v ∈ distinct vs) : v ∈ vs := by
  have collected (seen vs : List Value) :
      v ∈ vs.foldl (fun seen v => if seen.any v.same then seen else seen ++ [v]) seen →
        v ∈ seen ∨ v ∈ vs := by
    induction vs generalizing seen with
    | nil => exact .inl
    | cons w vs ih =>
      intro mem
      rcases ih _ mem with earlier | later
      · dsimp only at earlier
        split at earlier
        · exact .inl earlier
        · rcases List.mem_append.mp earlier with before | new
          · exact .inl before
          · exact .inr (List.mem_singleton.mp new ▸ List.mem_cons_self)
      · exact .inr (List.mem_cons_of_mem _ later)
  exact (collected [] vs mem).resolve_left List.not_mem_nil

theorem mem_of_mem_arranged {α : Type} {key : α → Value} {a : α} {items : List α}
    (mem : a ∈ arranged key items) : a ∈ items :=
  (List.mergeSort_perm items _).mem_iff.mp mem

theorem within_sortedOnce {vs : List Value} (areTexts : ∀ v ∈ vs, v.IsText) :
    Within (fun once => ∀ v ∈ once, v.IsText) (fun _ => False) (sortedOnce vs) := by
  have keys : Within (fun keys => ∀ v ∈ keys, v.IsText) (fun _ => False) (vs.mapM asKey) := by
    apply Within.mapM
    intro v mem
    rw [asKey_of_isKey (areTexts v mem).isKey]
    exact areTexts v mem
  apply keys.bind
  intro keys areTexts
  split
  · exact within_sorted fun v mem => areTexts v (mem_of_mem_distinct mem)
  · exact within_sorted fun v mem =>
      areTexts v (mem_of_mem_arranged (mem_of_mem_dropRepeats mem))

theorem areInOrder_of_pairwise {vs : List Value}
    (inOrder : vs.Pairwise fun a b => before? b a = some false) : areInOrder vs := by
  induction vs with
  | nil => rfl
  | cons a vs ih =>
    obtain ⟨first, rest⟩ := List.pairwise_cons.mp inOrder
    cases vs with
    | nil => rfl
    | cons b vs => simp [areInOrder, first b List.mem_cons_self, ih rest]

theorem same_text (a b : String) : (text a).same (text b) = decide (a = b) := by
  simp [same, canonical]

theorem before?_pair (a b c d : String) :
    before? (list [text a, text b]) (list [text c, text d]) =
      some (decide (toLex (a, b) < toLex (c, d))) := by
  by_cases first : a = c
  · by_cases second : b = d
    · simp [before?, itemsBefore?, same_text, first, second]
    · simp [before?, itemsBefore?, same_text, Prod.Lex.toLex_lt_toLex, first, second]
  · simp [before?, itemsBefore?, same_text, Prod.Lex.toLex_lt_toLex, first]

def textPair (p : String × String) : Value × Value := (.text p.1, .text p.2)

theorem exists_textPairs {pairs : List (Value × Value)}
    (areTexts : ∀ p ∈ pairs, p.1.IsText ∧ p.2.IsText) :
    ∃ names : List (String × String), pairs = names.map textPair := by
  induction pairs with
  | nil => exact ⟨[], rfl⟩
  | cons p pairs ih =>
    obtain ⟨_, _⟩ := p
    obtain ⟨⟨a, rfl⟩, b, rfl⟩ := areTexts _ List.mem_cons_self
    obtain ⟨names, rfl⟩ := ih fun q mem => areTexts q (List.mem_cons_of_mem _ mem)
    exact ⟨(a, b) :: names, rfl⟩

/-- Pairs of texts can always be sorted, and their order as values is that of the texts. -/
theorem sortedBy_textPairs (pairs : List (String × String)) :
    sortedBy (fun p : Value × Value => .list [p.1, p.2]) (pairs.map textPair) =
      .ok ((Text.sortedPairs pairs).map textPair) := by
  have noGap : ((pairs.map textPair).any fun p => (list [p.1, p.2]).holdsUndefined) = false := by
    simp [textPair, holdsUndefined, itemsHoldUndefined]
  have arranged : arranged (fun p : Value × Value => list [p.1, p.2]) (pairs.map textPair) =
      (Text.sortedPairs pairs).map textPair := by
    unfold arranged Text.sortedPairs
    rw [List.map_mergeSort]
    rintro ⟨a, b⟩ _ ⟨c, d⟩ _
    apply decide_eq_decide.mpr
    dsimp only [textPair]
    rw [before?_pair, ne_eq, Option.some_inj, decide_eq_true_iff, not_lt]
  have inOrder : areInOrder (((Text.sortedPairs pairs).map textPair).map
      fun p => list [p.1, p.2]) := by
    apply areInOrder_of_pairwise
    rw [List.map_map, List.pairwise_map]
    apply (Text.pairwise_sortedPairs pairs).imp
    intro p q le
    dsimp only [Function.comp_apply, textPair]
    rw [before?_pair, decide_eq_false (not_lt.mpr le)]
  rw [sortedBy, noGap, if_neg Bool.false_ne_true]
  dsimp only
  rw [arranged, if_pos inOrder]

theorem within_sortedBy_pair {pairs : List (Value × Value)}
    (areTexts : ∀ p ∈ pairs, p.1.IsText ∧ p.2.IsText) :
    Within (fun sorted => ∀ p ∈ sorted, p ∈ pairs) (fun _ => False)
      (sortedBy (fun p => .list [p.1, p.2]) pairs) := by
  obtain ⟨names, rfl⟩ := exists_textPairs areTexts
  rw [sortedBy_textPairs]
  exact fun p mem => ((Text.sortedPairs_perm names).map textPair).mem_iff.mp mem

end Value

/-! The entries of the cache -/

namespace ClassCategories

structure Readable (c : ClassCategories) : Prop where
  headings : ∀ p ∈ c.categories, p.1.IsText
  names : ∀ p ∈ c.categories, ∀ v ∈ p.2, v.IsText

theorem isText_heading (e : DictionaryEntry) : e.binding.heading.IsText := by
  unfold Binding.heading
  split <;> exact Value.isText_text _

theorem within_ofBindings (entries : List DictionaryEntry) :
    Within Readable (fun _ => False) (ofBindings (entries.map DictionaryEntry.binding)) := by
  have read {isListed : Binding → Bool} :
      ∀ b ∈ (entries.map DictionaryEntry.binding).filter isListed,
        b.heading.IsText ∧ b.name.IsText := by
    intro b mem
    obtain ⟨e, _, rfl⟩ := List.mem_map.mp (List.mem_filter.mp mem).1
    exact ⟨isText_heading e, Value.isText_text _⟩
  have named {bindings : List Binding} (texts : ∀ b ∈ bindings, b.name.IsText) :
      ∀ v ∈ bindings.map (·.name), v.IsText := by
    intro v mem
    obtain ⟨b, among, rfl⟩ := List.mem_map.mp mem
    exact texts b among
  unfold ofBindings
  dsimp only
  have headed : Within (fun headings => ∀ v ∈ headings, v.IsText) (fun _ => False)
      (((entries.map DictionaryEntry.binding).filter (·.isClass.isTruthy)).mapM
        (·.heading.asKey)) := by
    apply Within.mapM
    intro b mem
    rw [Value.asKey_of_isKey (read b mem).1.isKey]
    exact (read b mem).1
  apply headed.bind
  intro headings areTexts
  have listed : Within (fun categories : List (Value × List Value) =>
      ∀ p ∈ categories, p.1.IsText ∧ ∀ v ∈ p.2, v.IsText) (fun _ => False)
      ((Value.distinct headings).mapM (ofHeading
        ((entries.map DictionaryEntry.binding).filter (·.isClass.isTruthy)))) := by
    apply Within.mapM
    intro heading mem
    apply (Value.within_sorted (named fun b mem => (read b (List.mem_filter.mp mem).1).2)).bind
    intro names sorted
    exact ⟨areTexts heading (Value.mem_of_mem_distinct mem), sorted⟩
  apply listed.bind
  intro categories texts
  apply (Value.within_sorted (named fun b mem => (read b mem).2)).bind
  intro globals _
  exact ⟨fun p mem => (texts p mem).1, fun p mem => (texts p mem).2⟩

variable {c : ClassCategories}

theorem Readable.categoryNames (readable : c.Readable) :
    Within (fun names => ∀ v ∈ names, v.IsText) (fun _ => False) c.categoryNames := by
  apply Value.within_sorted
  intro v mem
  obtain ⟨p, among, rfl⟩ := List.mem_map.mp mem
  exact readable.headings p among

theorem Readable.allClassNames (readable : c.Readable) :
    Within (fun names => ∀ v ∈ names, v.IsText) (fun _ => False) c.allClassNames := by
  apply Value.within_sortedOnce
  intro v mem
  obtain ⟨p, among, listed⟩ := List.mem_flatMap.mp mem
  exact readable.names p among v listed

theorem Readable.classNamesIn {category : Value} (readable : c.Readable)
    (isText : category.IsText) :
    Within (fun names => ∀ v ∈ names, v.IsText) (fun _ => False) (c.classNamesIn category) := by
  rw [ClassCategories.classNamesIn, Value.asKey_of_isKey isText.isKey]
  show ∀ v ∈ ((c.categories.find? fun p => p.1.same category).map (·.2)).getD [], v.IsText
  cases found : c.categories.find? fun p => p.1.same category with
  | none => exact fun v mem => absurd mem List.not_mem_nil
  | some p => exact readable.names p (List.mem_of_find?_eq_some found)

end ClassCategories

structure CategoryListing.Readable (l : CategoryListing) : Prop where
  category : l.category.IsText
  selectors : ∃ names, l.selectors = Value.texts names

namespace Environments

def Readable (e : Environments) : Prop := ∀ l ∈ e.categories.values, l.Readable

theorem within_keyOf {isMeta environment category : Value} (side : isMeta.isKey)
    (number : environment.isKey) (isText : category.IsText) :
    Within (fun _ => True) (fun _ => False) (keyOf isMeta environment category) := by
  rw [keyOf, Value.asKey_of_isKey side, Value.asKey_of_isKey number,
    Value.asKey_of_isKey isText.isKey]
  trivial

section Listings

variable {P : CategoryListing → Prop}

theorem within_add {t : Table (Value × Value × Value) CategoryListing} {e : EnvironmentCategory}
    (kept : ∀ l ∈ t.values, P l) (made : P e.listing)
    (relisted : ∀ l, P l → P { l with selectors := e.listing.selectors }) :
    Within (fun t => ∀ l ∈ t.values, P l) (fun _ => False) (add t e.listing) := by
  have keyed : Within (fun _ => True) (fun _ => False)
      (keyOf e.listing.isMeta e.listing.environment e.listing.category) :=
    within_keyOf rfl rfl (Value.isText_text _)
  apply keyed.bind
  intro key _ l mem
  obtain ⟨entry, among, rfl⟩ := List.mem_map.mp mem
  rcases Table.mem_entries_insert among with rfl | old
  · cases found : t.find? key with
    | none => exact relisted e.listing made
    | some l =>
      exact relisted l (kept l (List.mem_map_of_mem (Table.mem_entries_of_find? found)))
  · exact kept _ (List.mem_map_of_mem old)

theorem within_ofListings_of_forall {rows : List EnvironmentCategory}
    (made : ∀ e ∈ rows, P e.listing)
    (relisted : ∀ e ∈ rows, ∀ l, P l → P { l with selectors := e.listing.selectors }) :
    Within (fun e => ∀ l ∈ e.categories.values, P l) (fun _ => False)
      (ofListings (rows.map EnvironmentCategory.listing)) := by
  have added : Within (fun t : Table (Value × Value × Value) CategoryListing =>
      ∀ l ∈ t.values, P l) (fun _ => False)
      ((rows.map EnvironmentCategory.listing).foldlM add .empty) := by
    apply Within.foldlM (fun l mem => absurd mem List.not_mem_nil)
    intro t l mem kept
    obtain ⟨e, among, rfl⟩ := List.mem_map.mp mem
    exact within_add kept (made e among) (relisted e among)
  exact added.bind fun _ kept => kept

end Listings

theorem within_ofListings (rows : List EnvironmentCategory) :
    Within Readable (fun _ => False) (ofListings (rows.map EnvironmentCategory.listing)) :=
  within_ofListings_of_forall (P := CategoryListing.Readable)
    (fun e _ => ⟨Value.isText_text _, e.selectors, rfl⟩)
    fun e _ _ readable => ⟨readable.category, e.selectors, rfl⟩

variable {e : Environments} {isMeta environment : Value}

theorem Readable.categoryNames (readable : e.Readable) :
    Within (fun names => ∀ v ∈ names, v.IsText) (fun _ => False)
      (e.categoryNames isMeta environment) := by
  apply Value.within_sorted
  intro v mem
  obtain ⟨l, among, rfl⟩ := List.mem_map.mp mem
  exact (readable l (List.mem_filter.mp among).1).category

theorem Readable.selectorsWith {category : Value} (readable : e.Readable) (side : isMeta.isKey)
    (number : environment.isKey) (isText : category.IsText) :
    Within (fun pairs => ∀ p ∈ pairs, p.1.IsText ∧ p.2.IsText) (fun _ => False)
      (e.selectorsWith isMeta environment category) := by
  have listed : Within (fun v => ∃ names, v = Value.texts names) (fun _ => False)
      (e.selectorsIn isMeta environment category) := by
    apply (within_keyOf side number isText).bind
    intro key _
    cases found : e.categories.find? key with
    | none => exact ⟨[], rfl⟩
    | some l =>
      obtain ⟨names, same⟩ :=
        (readable l (List.mem_map_of_mem (Table.mem_entries_of_find? found))).selectors
      exact ⟨names, same⟩
  apply listed.bind
  rintro _ ⟨names, rfl⟩ p mem
  obtain ⟨v, among, rfl⟩ := List.mem_map.mp mem
  obtain ⟨s, _, rfl⟩ := List.mem_map.mp among
  exact ⟨Value.isText_text s, isText⟩

theorem Readable.categorizedSelectors (readable : e.Readable) (side : isMeta.isKey)
    (number : environment.isKey) :
    Within (fun pairs => ∀ p ∈ pairs, p.1.IsText ∧ p.2.IsText) (fun _ => False)
      (e.categorizedSelectors isMeta environment) := by
  apply (Readable.categoryNames readable).bind
  intro names areTexts
  apply (Within.mapM fun name mem => readable.selectorsWith side number (areTexts name mem)).bind
  intro pairs listed
  have areTexts : ∀ p ∈ pairs.flatten, p.1.IsText ∧ p.2.IsText := by
    intro p mem
    obtain ⟨found, among, inside⟩ := List.mem_flatten.mp mem
    exact listed found among p inside
  exact (Value.within_sortedBy_pair areTexts).mono (fun _ kept p mem => areTexts p (kept p mem))
    fun _ => id

end Environments

def CacheEntry.Readable : CacheEntry → Prop
  | .classCategories c => c.Readable
  | .environments e => e.Readable

namespace CacheEntry

variable {e : CacheEntry}

theorem Readable.asClassCategories (readable : e.Readable) : e.asClassCategories.Readable := by
  cases e with
  | classCategories c => exact readable
  | environments _ =>
    exact ⟨fun p mem => absurd mem List.not_mem_nil, fun p mem => absurd mem List.not_mem_nil⟩

theorem Readable.asEnvironments (readable : e.Readable) : e.asEnvironments.Readable := by
  cases e with
  | classCategories _ => exact fun l mem => absurd mem List.not_mem_nil
  | environments e => exact readable

end CacheEntry

end ImageBrowser
