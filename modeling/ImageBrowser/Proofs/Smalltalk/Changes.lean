import ImageBrowser.Proofs.Smalltalk.Frames

/-!
Which snippets alter the image can be told from their sources: the last character of a source is
another one for a snippet that alters the image than for one that only reads it, whatever texts the
callers supply.
-/

namespace ImageBrowser.Smalltalk

namespace SnippetKind

def isChange : SnippetKind → Bool
  | compileClassDefinition | setClassComment | deleteMethod | recategorizeMethod => true
  | renameCategory | deleteClass | moveClass | addDictionary => true
  | moveDictionaryUp | moveDictionaryDown => true
  | _ => false

theorem kind_of_snippet {kind : SnippetKind} {values : List Value} {s : Snippet}
    (made : kind.snippet values = .ok s) : s.kind = kind := by
  unfold snippet at made
  split at made
  all_goals
    try simp only [bind, Except.bind, pure, Except.pure] at made
    repeat' split at made
    all_goals cases made
    all_goals rfl

end SnippetKind

def endsChange (source : String) : Bool :=
  source.toList.getLast?.any fun c => c = 'e' || c = '\''

theorem endsChange_render {ps : List (Piece String)} {p : Piece String}
    (last : ps.getLast? = some p) (some : p.render.toList.getLast?.isSome) :
    endsChange (render ps) = endsChange p.render := by
  obtain ⟨init, rfl⟩ := List.getLast?_eq_some_iff.mp last
  obtain ⟨c, ends⟩ := Option.isSome_iff_exists.mp some
  simp [endsChange, render, ends]

namespace Snippet

theorem isChange_kind (s : Snippet) : s.kind.isChange = s.isChange := by cases s <;> rfl

def lastPiece : Snippet → Piece String
  | dictionaryNames | classNames _ | dictionaryEntries _ | methodCategories _ _ => .code "ws contents"
  | methodSelectors _ _ _ | allClassNames => .code "ws contents"
  | classEnvironments _ _ _ | searchMethodSource _ _ | sendersOf _ _ => .code "stream contents"
  | implementorsOf _ _ | classHierarchy _ => .code "stream contents"
  | methodSource _ _ _ _ => .code ") sourceString"
  | classDefinition _ => .code " definition"
  | classComment _ => .code " comment"
  | compileClassDefinition _ => .code ") name"
  | addDictionary _ => .code "dict name"
  | setClassComment _ _ | deleteMethod _ _ _ | recategorizeMethod _ _ _ _ => .string "ok"
  | renameCategory _ _ _ _ | deleteClass _ _ | moveClass _ _ _ => .string "ok"
  | moveDictionaryUp _ | moveDictionaryDown _ => .string "ok"

theorem getLast?_template (s : Snippet) : s.template.getLast? = some s.lastPiece := by
  cases s with
  | methodSource _ m _ e => cases m <;> cases e <;> rfl
  | methodCategories _ m | methodSelectors _ m _ | deleteMethod _ m _
  | recategorizeMethod _ m _ _ | renameCategory _ m _ _ => cases m <;> rfl
  | _ => rfl

theorem endsChange_source (s : Snippet) : endsChange s.source = s.isChange := by
  rw [source, endsChange_render s.getLast?_template]
  · cases s <;> simp only [lastPiece, Piece.render, isChange] <;> decide +kernel
  · cases s <;> simp only [lastPiece, Piece.render] <;> decide +kernel

end Snippet

end ImageBrowser.Smalltalk
