import ImageBrowser.Proofs.Smalltalk.Lexing
import ImageBrowser.Smalltalk.SnippetKind

/-!
Which tokens a snippet has. They are laid out by its kind, its numbers and its truth values alone,
and its texts are the contents of literals at fixed places among them. A class definition to be
compiled is left out: its source is not a text in a literal but code.
-/

namespace ImageBrowser.Smalltalk

def Token.isCode : Token → Bool
  | code _ => true
  | _ => false

/-- A token of a source whose texts are still open: one that is always there, or the literal that
the text of a number goes into. -/
inductive Mark
  | fixed (t : Token)
  | place (isSymbol : Bool) (index : Nat)
  deriving DecidableEq, Repr

namespace Mark

def fill (texts : List String) : Mark → Token
  | fixed t => t
  | place isSymbol i => .literal isSymbol (texts.getD i "").toList

def isCode : Mark → Bool
  | fixed t => t.isCode
  | place _ _ => false

def index? : Mark → Option Nat
  | fixed _ => none
  | place _ i => some i

theorem isCode_fill (texts : List String) (m : Mark) : (m.fill texts).isCode = m.isCode := by
  cases m with
  | fixed t => rfl
  | place isSymbol i => cases isSymbol <;> rfl

end Mark

namespace Piece

def marks : Piece Nat → List Mark
  | code source => source.toList.map fun c => .fixed (.code c)
  | number n => (Text.intDigits n).map fun c => .fixed (.code c)
  | string content => [.fixed (.string content.toList)]
  | text i => [.place false i]
  | symbol i => [.place true i]
  | spliced _ => []

def literal? : Piece Nat → Option Mark
  | string content => some (.fixed (.string content.toList))
  | text i => some (.place false i)
  | symbol i => some (.place true i)
  | _ => none

theorem tokens_map (texts : List String) (p : Piece Nat) :
    (p.map (texts.getD · "")).tokens = p.marks.map (Mark.fill texts) := by
  cases p <;> simp [Piece.map, tokens, marks, Mark.fill, Token.literal]

theorem filter_marks (p : Piece Nat) :
    p.marks.filter (fun m => !m.isCode) = p.literal?.toList := by
  cases p <;> simp [marks, literal?, Mark.isCode, Token.isCode]

theorem filter_flatMap_marks (ps : List (Piece Nat)) :
    (ps.flatMap marks).filter (fun m => !m.isCode) = ps.filterMap literal? := by
  induction ps with
  | nil => rfl
  | cons p ps ih =>
    rw [List.flatMap_cons, List.filter_append, filter_marks, ih, List.filterMap_cons]
    cases p.literal? <;> rfl

end Piece

namespace Snippet

def kind : Snippet → SnippetKind
  | dictionaryNames => .dictionaryNames
  | classNames _ => .classNames
  | dictionaryEntries _ => .dictionaryEntries
  | methodCategories _ _ => .methodCategories
  | methodSelectors _ _ _ => .methodSelectors
  | classEnvironments _ _ _ => .classEnvironments
  | methodSource _ _ _ _ => .methodSource
  | classDefinition _ => .classDefinition
  | classComment _ => .classComment
  | allClassNames => .allClassNames
  | searchMethodSource _ _ => .searchMethodSource
  | sendersOf _ _ => .sendersOf
  | implementorsOf _ _ => .implementorsOf
  | classHierarchy _ => .classHierarchy
  | compileClassDefinition _ => .compileClassDefinition
  | setClassComment _ _ => .setClassComment
  | deleteMethod _ _ _ => .deleteMethod
  | recategorizeMethod _ _ _ _ => .recategorizeMethod
  | renameCategory _ _ _ _ => .renameCategory
  | deleteClass _ _ => .deleteClass
  | moveClass _ _ _ => .moveClass
  | addDictionary _ => .addDictionary
  | moveDictionaryUp _ => .moveDictionaryUp
  | moveDictionaryDown _ => .moveDictionaryDown

def texts : Snippet → List String
  | dictionaryNames | dictionaryEntries _ | allClassNames => []
  | classNames d => [d]
  | methodCategories c _ => [c]
  | methodSelectors c _ g => [c, g]
  | classEnvironments _ c _ => [c]
  | methodSource c _ s _ => [c, s]
  | classDefinition c | classComment c | classHierarchy c => [c]
  | searchMethodSource t _ => [t]
  | sendersOf s _ | implementorsOf s _ => [s]
  | compileClassDefinition s => [s]
  | setClassComment c t => [c, t]
  | deleteMethod c _ s => [c, s]
  | recategorizeMethod c _ s g => [c, s, g]
  | renameCategory c _ o n => [c, o, n]
  | deleteClass d c => [d, c]
  | moveClass s d c => [s, d, c]
  | addDictionary n | moveDictionaryUp n | moveDictionaryDown n => [n]

/-- A snippet with every text left empty: what is left are its kind, its numbers and its truth
values. -/
def blank : Snippet → Snippet
  | dictionaryNames => dictionaryNames
  | classNames _ => classNames ""
  | dictionaryEntries i => dictionaryEntries i
  | methodCategories _ m => methodCategories "" m
  | methodSelectors _ m _ => methodSelectors "" m ""
  | classEnvironments i _ l => classEnvironments i "" l
  | methodSource _ m _ e => methodSource "" m "" e
  | classDefinition _ => classDefinition ""
  | classComment _ => classComment ""
  | allClassNames => allClassNames
  | searchMethodSource _ i => searchMethodSource "" i
  | sendersOf _ e => sendersOf "" e
  | implementorsOf _ e => implementorsOf "" e
  | classHierarchy _ => classHierarchy ""
  | compileClassDefinition _ => compileClassDefinition ""
  | setClassComment _ _ => setClassComment "" ""
  | deleteMethod _ m _ => deleteMethod "" m ""
  | recategorizeMethod _ m _ _ => recategorizeMethod "" m "" ""
  | renameCategory _ m _ _ => renameCategory "" m "" ""
  | deleteClass _ _ => deleteClass "" ""
  | moveClass _ _ _ => moveClass "" "" ""
  | addDictionary _ => addDictionary ""
  | moveDictionaryUp _ => moveDictionaryUp ""
  | moveDictionaryDown _ => moveDictionaryDown ""

def frame : Snippet → List (Piece Nat)
  | dictionaryNames => Smalltalk.dictionaryNames
  | classNames _ => Smalltalk.classNames 0
  | dictionaryEntries i => Smalltalk.dictionaryEntries i
  | methodCategories _ m => Smalltalk.methodCategories 0 m
  | methodSelectors _ m _ => Smalltalk.methodSelectors 0 m 1
  | classEnvironments i _ l => Smalltalk.classEnvironments i 0 l
  | methodSource _ m _ e => Smalltalk.methodSource 0 m 1 e
  | classDefinition _ => Smalltalk.classDefinition 0
  | classComment _ => Smalltalk.classComment 0
  | allClassNames => Smalltalk.allClassNames
  | searchMethodSource _ i => Smalltalk.searchMethodSource 0 i
  | sendersOf _ e => Smalltalk.sendersOf 0 e
  | implementorsOf _ e => Smalltalk.implementorsOf 0 e
  | classHierarchy _ => Smalltalk.classHierarchy 0
  | compileClassDefinition _ => Smalltalk.compileClassDefinition 0
  | setClassComment _ _ => Smalltalk.setClassComment 0 1
  | deleteMethod _ m _ => Smalltalk.deleteMethod 0 m 1
  | recategorizeMethod _ m _ _ => Smalltalk.recategorizeMethod 0 m 1 2
  | renameCategory _ m _ _ => Smalltalk.renameCategory 0 m 1 2
  | deleteClass _ _ => Smalltalk.deleteClass 0 1
  | moveClass _ _ _ => Smalltalk.moveClass 0 1 2
  | addDictionary _ => Smalltalk.addDictionary 0
  | moveDictionaryUp _ => Smalltalk.moveDictionaryUp 0
  | moveDictionaryDown _ => Smalltalk.moveDictionaryDown 0

def outline (s : Snippet) : List Mark := s.frame.flatMap Piece.marks

end Snippet

def SnippetKind.least : SnippetKind → Snippet
  | dictionaryNames => .dictionaryNames
  | classNames => .classNames ""
  | dictionaryEntries => .dictionaryEntries 0
  | methodCategories => .methodCategories "" false
  | methodSelectors => .methodSelectors "" false ""
  | classEnvironments => .classEnvironments 0 "" 0
  | methodSource => .methodSource "" false "" none
  | classDefinition => .classDefinition ""
  | classComment => .classComment ""
  | allClassNames => .allClassNames
  | searchMethodSource => .searchMethodSource "" false
  | sendersOf => .sendersOf "" 0
  | implementorsOf => .implementorsOf "" 0
  | classHierarchy => .classHierarchy ""
  | compileClassDefinition => .compileClassDefinition ""
  | setClassComment => .setClassComment "" ""
  | deleteMethod => .deleteMethod "" false ""
  | recategorizeMethod => .recategorizeMethod "" false "" ""
  | renameCategory => .renameCategory "" false "" ""
  | deleteClass => .deleteClass "" ""
  | moveClass => .moveClass "" "" ""
  | addDictionary => .addDictionary ""
  | moveDictionaryUp => .moveDictionaryUp ""
  | moveDictionaryDown => .moveDictionaryDown ""

namespace Snippet

theorem template_eq_map_frame (s : Snippet) :
    s.template = s.frame.map (Piece.map (s.texts.getD · "")) := by
  cases s with
  | methodCategories _ m | methodSelectors _ m | deleteMethod _ m | recategorizeMethod _ m
  | renameCategory _ m => cases m <;> rfl
  | methodSource _ m _ e => cases m <;> cases e <;> rfl
  | _ => rfl

theorem frame_blank (s : Snippet) : s.blank.frame = s.frame := by
  cases s <;> rfl

theorem kind_blank (s : Snippet) : s.blank.kind = s.kind := by
  cases s <;> rfl

theorem length_texts (s : Snippet) : s.texts.length = s.kind.least.texts.length := by
  cases s <;> rfl

theorem literals_frame (s : Snippet) :
    s.frame.filterMap Piece.literal? = s.kind.least.frame.filterMap Piece.literal? := by
  cases s with
  | methodCategories _ m | methodSelectors _ m | deleteMethod _ m | recategorizeMethod _ m
  | renameCategory _ m => cases m <;> rfl
  | methodSource _ m _ e => cases m <;> cases e <;> rfl
  | _ => rfl

theorem indices_least {k : SnippetKind} (h : k ≠ .compileClassDefinition) :
    ((k.least.frame.filterMap Piece.literal?).filterMap Mark.index?).eraseDups =
      List.range k.least.texts.length := by
  cases k with
  | compileClassDefinition => contradiction
  | _ => rfl

/-- The rules for templates apply piece by piece, once it is known which pieces there are. -/
theorem apart_frame {s : Snippet} (h : s.kind ≠ .compileClassDefinition) : Apart s.frame := by
  cases s with
  | compileClassDefinition => contradiction
  | methodCategories _ m | methodSelectors _ m | deleteMethod _ m | recategorizeMethod _ m
  | renameCategory _ m => cases m <;> repeat' constructor
  | methodSource _ m _ e => cases m <;> cases e <;> repeat' constructor
  | searchMethodSource _ i => cases i <;> repeat' constructor
  | _ => repeat' constructor

theorem tokens_eq_outline {s : Snippet} (h : s.kind ≠ .compileClassDefinition) :
    tokens? s.source = some (s.outline.map (Mark.fill s.texts)) := by
  rw [source, template_eq_map_frame, tokens_render ((apart_frame h).map _), outline,
    List.flatMap_map, List.map_flatMap]
  simp only [Piece.tokens_map]

theorem literals_outline (s : Snippet) :
    s.outline.filter (fun m => !m.isCode) = s.kind.least.frame.filterMap Piece.literal? := by
  rw [← literals_frame, outline, Piece.filter_flatMap_marks]

theorem place_mem_outline_iff {s : Snippet} (h : s.kind ≠ .compileClassDefinition) (i : Nat) :
    (∃ isSymbol, Mark.place isSymbol i ∈ s.outline) ↔ i < s.texts.length := by
  have mem (m : Mark) : (m ∈ s.outline ∧ m.isCode = false) ↔
      m ∈ s.kind.least.frame.filterMap Piece.literal? := by
    rw [← literals_outline, List.mem_filter]
    simp
  rw [length_texts, ← List.mem_range, ← indices_least h, List.mem_eraseDups,
    List.mem_filterMap]
  constructor
  · rintro ⟨b, place⟩
    exact ⟨.place b i, (mem _).mp ⟨place, rfl⟩, rfl⟩
  · rintro ⟨m, literal, index⟩
    cases m with
    | fixed t => contradiction
    | place b j =>
      cases index
      exact ⟨b, ((mem _).mpr literal).1⟩

theorem fill_eq_of_source_eq {s t : Snippet} (h : s.kind ≠ .compileClassDefinition)
    (kind : t.kind = s.kind) (same : t.source = s.source) {m : Mark} (mem : m ∈ s.outline)
    (literal : m.isCode = false) : m.fill t.texts = m.fill s.texts := by
  have tokens : t.outline.map (Mark.fill t.texts) = s.outline.map (Mark.fill s.texts) := by
    apply Option.some.inj
    rw [← tokens_eq_outline h, ← tokens_eq_outline (kind ▸ h), same]
  have literals := congrArg (List.filter fun t => !t.isCode) tokens
  simp only [List.filter_map, Mark.isCode_fill, Function.comp_def, literals_outline, kind]
    at literals
  refine List.map_inj_left.mp literals m ?_
  rw [← literals_outline, List.mem_filter]
  exact ⟨mem, by simp [literal]⟩

theorem texts_eq_of_source_eq {s t : Snippet} (h : s.kind ≠ .compileClassDefinition)
    (kind : t.kind = s.kind) (same : t.source = s.source) : t.texts = s.texts := by
  have length : t.texts.length = s.texts.length := by
    rw [length_texts t, length_texts s, kind]
  apply List.ext_getElem length
  intro i ht hs
  obtain ⟨b, place⟩ := (place_mem_outline_iff h i).mpr hs
  have filled := fill_eq_of_source_eq h kind same place rfl
  cases b <;> simpa [Mark.fill, Token.literal, String.toList_inj, ht, hs] using filled

/-- Snippets that differ only in their texts have the same tokens, but for the contents of literals
at fixed places, which are just these texts. The last part is about the two pieces of source that
take no text and are built apart. -/
theorem texts_stay_in_literals (s : Snippet) (h : s.kind ≠ .compileClassDefinition) :
    (∀ t : Snippet, t.blank = s.blank →
      tokens? t.source = some (s.outline.map (Mark.fill t.texts))) ∧
    (∀ i, (∃ isSymbol, Mark.place isSymbol i ∈ s.outline) ↔ i < s.texts.length) ∧
    (∀ t : Snippet, t.kind = s.kind → t.source = s.source → t.texts = s.texts) ∧
    (tokens? (render dictionaryLookup)).isSome ∧
    ∀ environment, (tokens? (render (methodRows environment))).isSome := by
  refine ⟨?_, place_mem_outline_iff h, fun t => texts_eq_of_source_eq h, ?_, ?_⟩
  · intro t blank
    have kind : t.kind = s.kind := by rw [← kind_blank t, blank, kind_blank s]
    have outline : t.outline = s.outline := by
      rw [Snippet.outline, ← frame_blank t, blank, frame_blank s, ← Snippet.outline]
    rw [← outline]
    exact tokens_eq_outline (kind ▸ h)
  · rw [tokens_render (by repeat' constructor)]
    rfl
  · intro environment
    rw [tokens_render (by repeat' constructor)]
    rfl

theorem renamed_category_stays_in_literals :
    (renameCategory "" true "" "").kind ≠ .compileClassDefinition ∧
    tokens? (renameCategory "O'" true "''" "100%\"\n'").source =
      some ((renameCategory "" true "" "").outline.map
        (Mark.fill ["O'", "''", "100%\"\n'"])) :=
  ⟨by decide, (texts_stay_in_literals (renameCategory "" true "" "") (by decide)).1
    (renameCategory "O'" true "''" "100%\"\n'") rfl⟩

end Snippet

end ImageBrowser.Smalltalk
