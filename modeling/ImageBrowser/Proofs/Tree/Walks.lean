import ImageBrowser.Proofs.Tree.Visits

/-!
Walking down the tree from its roots. Every node on the way is a child of the one before it, in a
listing that was answered for that one, and other nodes may be expanded in between. Whatever stones
answer, the nodes on such a way are placed.
-/

namespace ImageBrowser

open Program (Meets)

/-- A node that was come to from the roots, and the state then. -/
inductive Walked (o : Outlook) (w : World) : Option Node → World → Prop
  | roots : Walked o w none w
  | child {n : Tree.Notifier} {node : Option Node} {v u : World} {rows : List Node} {child : Node}
      (walked : Walked o w node v) (runs : (Tree.children n node).Runs o v (.ok rows) u)
      (listed : child ∈ rows) : Walked o w (some child) u
  | meanwhile {n : Tree.Notifier} {node other : Option Node} {v u : World}
      {outcome : Except Fault (List Node)} (walked : Walked o w node v)
      (runs : (Tree.children n other).Runs o v outcome u) : Walked o w node u

variable {o : Outlook} {w v : World} {node : Option Node}

theorem Tree.meets_placed (n : Notifier) (node : Option Node) :
    Meets o (World.Sound none) (children n node)
      (fun ns => (∀ m ∈ node, m.Placed) → ∀ m ∈ ns, m.Placed) fun _ => True := by
  have nothing : (∀ m ∈ node, m.Placed) → ∀ m ∈ ([] : List Node), m.Placed :=
    fun _ _ mem => absurd mem List.not_mem_nil
  apply Meets.bind (.step fun _ sound => sound)
  intro selected _
  cases selected with
  | none => exact .done nothing
  | some h =>
    -- failures do not matter here, so nothing is expected of the stone or of the node
    have below : ListsBelow o (World.Sound none) False h (fun _ => True) node (childrenOf h node) :=
      lists_childrenOf keepsCache_sound meets_limit False.elim False.elim
    have found : Meets o (World.Sound none) (childrenOf h node)
        (fun ns => (∀ m ∈ node, m.Placed) → ∀ m ∈ ns, m.Placed) (Refused False) :=
      below.mono (fun _ below placed m mem => (below placed m mem).placed placed) fun _ => id
    exact Outlook.meets_reported (fun _ _ sound => sound.congr rfl rfl rfl rfl) n nothing found

theorem Walked.placed (walked : Walked o w node v) (sound : World.Sound none w) :
    World.Sound none v ∧ ∀ m ∈ node, m.Placed := by
  induction walked with
  | roots => exact ⟨sound, nofun⟩
  | child walked runs listed ih =>
    obtain ⟨sound, placed⟩ := (Tree.meets_placed _ _ _ ih.1).of_runs runs
    refine ⟨sound, ?_⟩
    rintro _ ⟨⟩
    exact placed ih.2 _ listed
  | meanwhile walked runs ih => exact ⟨((Tree.meets_placed _ _ _ ih.1).of_runs runs).1, ih.2⟩

/-! The way to the definition of a class -/

theorem Tree.ends_sides {h : Handle} (selected : w.selection.selectedHandle = some h) (n : Notifier)
    (path : ClassPath) :
    (children n (some (.cls path))).Ends o w fun outcome _ =>
      ∃ rows, outcome = .ok rows ∧ .definition path ∈ rows := by
  show (Program.step .selectedSession >>= _).Ends _ _ _
  rw [Program.ends_step_bind]
  simp only [World.step, selected]
  have listed : Meets o (fun _ => True) (sides path) (fun rows => .definition path ∈ rows)
      fun _ => False :=
    .bind meets_limit fun limit _ => .done (by simp)
  have found := (listed w trivial).mono fun _ _ ended => ended.2.exists_ok
  exact Program.ends_handling found

theorem walked_definition {s : WorkingStone} {h : Handle} {path : DictionaryPath} {session : Value}
    {i : Int} {c : ClassCategories} {roots rows classes : List Node} {row className : Value}
    (start : s.Settled h (Listed []) w)
    (rooted : (Tree.children .log none).Ends s.outlook w fun outcome _ => outcome = .ok roots)
    (root : .dictionary path ∈ roots) (lists : Lists (some (.dictionary path)) session i)
    (built : ClassCategories.ofBindings (s.bindingsAt i) = .ok c)
    (shown : Tree.categoryRows c path = .ok rows) (category : .classCategory path row ∈ rows)
    (named : Tree.rowChildren c path row = .ok classes) (cls : .cls ⟨path, className⟩ ∈ classes) :
    ∃ v, Walked s.outlook w (some (.definition ⟨path, className⟩)) v := by
  obtain ⟨_, v₁, first⟩ := rooted.exists_runs
  obtain rfl := rooted.of_runs first
  have atRoots := Visited.start.expand first
  have dictionary := WorkingStone.ends_dictionary (atRoots.settled start) .log lists built shown
  obtain ⟨_, v₂, second⟩ := dictionary.exists_runs
  obtain rfl := dictionary.of_runs second
  have atDictionary := atRoots.expand second
  have categories := WorkingStone.ends_classCategory (atDictionary.settled start) .log lists built
    named
  obtain ⟨_, v₃, third⟩ := categories.exists_runs
  obtain rfl := (categories.of_runs third).1 (.inr lists)
  have atCategory := atDictionary.expand third
  have sides := Tree.ends_sides (o := s.outlook) (atCategory.settled start).selected .log
    ⟨path, className⟩
  obtain ⟨_, v₄, fourth⟩ := sides.exists_runs
  obtain ⟨_, rfl, listed⟩ := sides.of_runs fourth
  exact ⟨v₄, (((Walked.roots.child first root).child second category).child third cls).child fourth
    listed⟩

end ImageBrowser
