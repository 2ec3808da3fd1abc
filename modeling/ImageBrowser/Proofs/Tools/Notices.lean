import ImageBrowser.Proofs.Tools.Freshness
import ImageBrowser.Proofs.Tree.Plans

/-!
The list of notices that all expansions share. A caller empties it, expands its node and reads it
twice, once for whether anything failed and once for what is said of that. So each answer shows the
children that its own caller found, and the failures of everybody since the list was last emptied,
which are its own if nobody else has used the list meanwhile.
-/

namespace ImageBrowser

open Program (Keeps)

namespace Action

/-- What is in the list of notices after an action. -/
def noted (notices : List String) : Action → List String
  | .step .clearNotices => []
  | .step (.addNotice message) => notices ++ [message]
  | _ => notices

def changesNotices : Action → Bool
  | .step .clearNotices | .step (.addNotice _) => true
  | _ => false

theorem noted_of_silent {a : Action} (silent : a.changesNotices = false) (notices : List String) :
    a.noted notices = notices := by
  cases a with
  | step s => cases s <;> first | rfl | contradiction
  | _ => rfl

theorem silent_of_isOfCall {a : Action} (call : a.isOfCall) : !a.changesNotices := by
  cases a with
  | step s => cases s <;> first | rfl | contradiction
  | _ => rfl

end Action

theorem World.notices_after (w : World) (a : Action) : (w.after a).notices = a.noted w.notices := by
  cases a with
  | step s => cases s <;> rfl
  | _ => rfl

def noticed (history : List Event) : List String :=
  history.foldl (fun notices e => e.action.noted notices) []

theorem World.notices_replay (w : World) (history : List Event) :
    (w.replay history).notices =
      history.foldl (fun notices e => e.action.noted notices) w.notices := by
  induction history using List.reverseRecOn with
  | nil => rfl
  | append_singleton history e ih =>
    rw [World.replay_concat, World.notices_after, ih, List.foldl_append]
    rfl

theorem System.Reachable.read_notices {α : Type} {starts : Program α → Prop} {w : World}
    {s : System α} (reach : System.Reachable starts w s) {before during since : List Event}
    {i j : Nat} {read : List String}
    (split : s.history =
      before ++ ⟨i, .step .clearNotices, ()⟩ :: (during ++ ⟨j, .step .notices, read⟩ :: since)) :
    read = noticed during := by
  rw [← List.cons_append, ← List.append_assoc] at split
  obtain ⟨s', k, v, reach', history, _, answers⟩ := reach.answered_event split
  have current : read = s'.world.notices := by
    cases answers
    rfl
  rw [current, reach'.world_eq, World.notices_replay, history, List.foldl_append, List.foldl_cons]
  rfl

theorem noticed_of_alone {history : List Event} {i : Nat}
    (alone : ∀ e ∈ history, e.action.changesNotices → e.caller = i) :
    noticed history =
      (System.diary i history).foldl (fun notices d => d.1.noted notices) [] := by
  induction history using List.reverseRecOn with
  | nil => rfl
  | append_singleton history e ih =>
    have rest := ih fun e mem => alone e (List.mem_append_left _ mem)
    rw [noticed, List.foldl_append, System.diary_concat, ← noticed, rest]
    split
    · rw [List.foldl_append]
      rfl
    · next other =>
      have silent : e.action.changesNotices = false := by
        cases changes : e.action.changesNotices with
        | false => rfl
        | true => exact absurd (alone e (by simp) changes) other
      exact Action.noted_of_silent silent _

theorem foldl_noted_of_silent {ds : List Doing} (silent : ∀ d ∈ ds, !d.1.changesNotices)
    (notices : List String) : ds.foldl (fun notices d => d.1.noted notices) notices = notices := by
  induction ds with
  | nil => rfl
  | cons d ds ih =>
    obtain ⟨first, rest⟩ := List.forall_mem_cons.mp silent
    rw [List.foldl_cons, Action.noted_of_silent (by simpa using first), ih rest]

/-! What an expansion notes -/

abbrev Program.Silent {α : Type} (p : Program α) : Prop := p.Only fun a => !a.changesNotices

namespace Tree

variable {h : Handle}

theorem silent_limit : limit.Silent := by
  apply Keeps.bind (Program.only_act rfl .done)
  intro found
  dsimp only
  split
  · exact .bind (Program.only_act rfl .done) fun _ => .done _
  · exact .done _

theorem silent_entry {k : CacheKey} {fetch : Program CacheEntry} (fetches : fetch.Silent) :
    (entry k fetch).Silent := by
  apply Keeps.bind (Program.only_act rfl .done)
  intro found
  cases found with
  | found e => exact .done e
  | joined ticket => exact Program.only_act rfl fun _ => .ofExcept _
  | owned ticket =>
    exact .bind (.attempt fetches) fun _ => .bind (Program.only_act rfl .done) fun _ =>
      .bind (Program.only_act rfl .done) fun _ => .ofExcept _

theorem silent_run {label : String} {kind : Smalltalk.SnippetKind} {values : List Value} :
    (h.run label kind values).Silent :=
  h.run_logical.ofCall.mono fun _ => Action.silent_of_isOfCall

theorem Plan.silent_carryOut (p : Plan) : (p.carryOut h).Silent :=
  .bind (silent_entry (.bind silent_run fun _ => .ofExcept _)) fun _ => .ofExcept _

theorem silent_childrenOf (node : Option Node) : (childrenOf h node).Silent := by
  have planned {node : Node} {make : Program Plan} (plans : planning node = some make)
      (silent : make.Silent) : (childrenOf h (some node)).Silent := by
    rw [childrenOf_of_planning plans]
    exact .bind silent fun p => p.silent_carryOut
  have underLimit (make : Nat → Except Fault Plan) : (underLimit make).Silent :=
    .bind silent_limit fun _ => .ofExcept _
  cases node with
  | none => exact .bind (.bind silent_run fun _ => .done _) fun _ => .done _
  | some node =>
    cases node with
    | dictionary _ => exact planned rfl (.ofExcept _)
    | side _ | category _ _ => exact planned rfl (underLimit _)
    | classCategory path row =>
      have looked : (cachedClassCategories path.sessionId path.index).Silent :=
        .bind (.ofExcept _) fun _ => .bind (Program.only_act rfl .done) fun _ => .done _
      apply Keeps.bind looked
      intro found
      cases found with
      | none => exact .done _
      | some e => exact .ofExcept _
    | cls path => exact .bind silent_limit fun _ => .done _
    | _ => exact .done _

end Tree

/-- How an expansion went that was answered: what was done, the children that were found, and the
failure that was noted. -/
inductive Expanded (node : Option Node) : List Doing → List Node → Option Fault → Prop
  | unselected : Expanded node [⟨.step .selectedSession, none⟩] [] none
  | listed {h : Handle} {work : List Doing} {children : List Node}
    (lists : (Tree.childrenOf h node).Does work (.ok children)) :
    Expanded node (⟨.step .selectedSession, some h⟩ :: work) children none
  | failed {h : Handle} {work : List Doing} {f : Fault}
    (fails : (Tree.childrenOf h node).Does work (.error f)) :
    Expanded node (⟨.step .selectedSession, some h⟩ ::
      (work ++ [⟨.step (.addNotice (Tree.failureNotice f)), ()⟩])) [] (some f)

namespace Expanded

variable {node : Option Node} {ds : List Doing} {children : List Node} {failure : Option Fault}

theorem of_does (does : (Tree.children .gather node).Does ds (.ok children)) :
    ∃ failure, Expanded node ds children failure := by
  obtain ⟨⟨⟩, rfl⟩ | ⟨h, work, told, result, rfl, lists, ended⟩ := Tree.does_children does
  · exact ⟨none, .unselected⟩
  obtain ⟨rfl, rfl, _⟩ | ⟨f, answer, rfl, _, same, tells⟩ := ended
  · rw [List.append_nil]
    exact ⟨none, .listed lists⟩
  · obtain ⟨_, rest, rfl, finished⟩ := Program.does_act.mp tells
    obtain ⟨rfl, rfl⟩ := Program.does_done.mp finished
    cases same
    exact ⟨some f, .failed lists⟩

theorem noted (expanded : Expanded node ds children failure) :
    ds.foldl (fun notices d => d.1.noted notices) [] =
      (failure.map Tree.failureNotice).toList := by
  cases expanded with
  | unselected => rfl
  | listed lists => exact foldl_noted_of_silent ((Tree.silent_childrenOf node).does lists) _
  | failed fails =>
    have silent := foldl_noted_of_silent ((Tree.silent_childrenOf node).does fails) []
    rw [List.foldl_cons, List.foldl_append]
    exact congrArg (· ++ [_]) silent

end Expanded

namespace Tools

theorem silent_rowsFor (children : List Node) : (rowsFor childRow children).Silent := by
  induction children with
  | nil => exact .done _
  | cons node children ih =>
    have row : (childRow node).Silent :=
      .bind (.bind Tree.silent_limit fun _ => .ofExcept _) fun _ => .done _
    exact .bind row fun _ => .bind ih fun _ => .done _

def browsed (seen reported : List String) (rows : List Value) : Response :=
  ⟨seen.isEmpty, if reported.isEmpty then none else some ⟨"; ".intercalate reported, []⟩,
    [("children", .list rows)]⟩

theorem does_browseNode {node : Option Node} {ds : List Doing} {response : Response}
    (does : (browseNode node).Does ds (.ok response)) :
    ∃ work shown seen reported children rows,
      ds = ⟨.step .clearNotices, ()⟩ :: (work ++ ⟨.step .notices, seen⟩ :: (shown ++
        [⟨.step .notices, reported⟩])) ∧
      (Tree.children .gather node).Does work (.ok children) ∧
      (rowsFor childRow children).Does shown (.ok rows) ∧
      response = browsed seen reported rows := by
  obtain ⟨_, rest, rfl, goes⟩ := Program.does_step_bind.mp does
  obtain ⟨children, work, rest, rfl, expands, reads⟩ | ⟨_, _, ⟨⟩⟩ := goes.of_bind
  obtain ⟨seen, rest, rfl, shows⟩ := Program.does_step_bind.mp reads
  obtain ⟨rows, shown, rest, rfl, renders, reports⟩ | ⟨_, _, ⟨⟩⟩ := shows.of_bind
  obtain ⟨reported, rest, rfl, finished⟩ := Program.does_step_bind.mp reports
  obtain ⟨rfl, ⟨⟩⟩ := Program.does_done.mp finished
  exact ⟨work, shown, seen, reported, children, rows, rfl, expands, renders, rfl⟩

def IsCallGiven (p : Program (Tool × Fields × Response)) : Prop :=
  ∃ s t given, p = (fun response => (t, given, response)) <$> call s t given

def givenNode (v : Value) : Except Fault (Option Node) :=
  if v = .null then .ok none else some <$> Node.ofValue v

theorem nodeOf_eq (v : Value) : nodeOf v = Program.ofExcept (givenNode v) := by
  unfold nodeOf givenNode
  split
  · rfl
  · rw [Program.ofExcept_map]
    rfl

theorem does_call_browse {s : Switches} {given : Fields} {ds : List Doing} {response : Response}
    (does : (call s .browse given).Does ds (.ok response)) :
    ∃ v, Tool.browse.bindArguments given = .ok [v] ∧
      ((∃ f, givenNode v = .error f ∧ ds = [] ∧ response = .ofFault f []) ∨
        ∃ node, givenNode v = .ok node ∧ (browseNode node).Does ds (.ok response)) := by
  obtain ⟨values, first, rest, rfl, binds, runs⟩ | ⟨_, _, ⟨⟩⟩ := does.of_bind
  obtain ⟨rfl, bound⟩ := Program.does_ofExcept.mp binds
  match values with
  | [v] =>
    refine ⟨v, bound.symm, ?_⟩
    have expands : (answering (nodeOf v) isMalformed (failing []) browseNode).Does rest
      (.ok response) := runs
    rw [nodeOf_eq] at expands
    obtain ⟨_, first, rest, rfl, reads, meant⟩ := does_answering expands
    obtain ⟨rfl, rfl⟩ := Program.does_ofExcept.mp reads
    obtain ⟨node, same, goes⟩ | ⟨f, same, ⟨_, answers⟩ | ⟨_, _, ⟨⟩⟩⟩ := meant
    · exact .inr ⟨node, same, goes⟩
    · obtain ⟨rfl, ⟨⟩⟩ := Program.does_done.mp answers
      exact .inl ⟨f, same, rfl, rfl⟩
  | [] | _ :: _ :: _ =>
    have raises : (Program.fail (.mismatch .wrongArguments)).Does rest (.ok response) := runs
    obtain ⟨_, ⟨⟩⟩ := Program.does_fail.mp raises

def ownAnswer (failure : Option Fault) (rows : List Value) : Response :=
  ⟨failure.isNone, failure.map fun f => ⟨Tree.failureNotice f, []⟩, [("children", .list rows)]⟩

theorem browsed_own (failure : Option Fault) (rows : List Value) :
    browsed (failure.map Tree.failureNotice).toList (failure.map Tree.failureNotice).toList rows =
      ownAnswer failure rows := by
  cases failure <;> rfl

/-- The part of a history in which a caller expands a node, which is all that it does: what is done
by everybody from its emptying the list to its reading it, and then to its reading it again when the
children are shown. -/
structure Expanding (history : List Event) (i : Nat) (node : Option Node)
    (during between : List Event) (children : List Node) (failure : Option Fault)
    (rows : List Value) : Prop where
  within : ∃ before since, System.diary i before = [] ∧ System.diary i since = [] ∧
    history = before ++ ⟨i, .step .clearNotices, ()⟩ :: (during ++
      ⟨i, .step .notices, noticed during⟩ :: (between ++
        ⟨i, .step .notices, noticed (during ++ between)⟩ :: since))
  expands : Expanded node (System.diary i during) children failure
  shows : (rowsFor childRow children).Does (System.diary i between) (.ok rows)

namespace Expanding

variable {history during between : List Event} {i : Nat} {node : Option Node}
  {children : List Node} {failure : Option Fault} {rows : List Value}

theorem mem_history (expanding : Expanding history i node during between children failure rows)
    {e : Event} (mem : e ∈ during ++ between) : e ∈ history := by
  obtain ⟨before, since, -, -, rfl⟩ := expanding.within
  simp only [List.mem_append, List.mem_cons] at mem ⊢
  tauto

/-- What a caller notes in all is its own failure, if it has one. -/
theorem noted_diary (expanding : Expanding history i node during between children failure rows) :
    (System.diary i history).foldl (fun notices d => d.1.noted notices) [] =
      (failure.map Tree.failureNotice).toList := by
  obtain ⟨before, since, early, late, rfl⟩ := expanding.within
  have silent := foldl_noted_of_silent ((silent_rowsFor children).does expanding.shows)
  rw [System.diary_append, early, System.diary_cons, if_pos rfl, System.diary_append,
    System.diary_cons, if_pos rfl, System.diary_append, System.diary_cons, if_pos rfl, late,
    List.nil_append, List.foldl_cons, List.foldl_append, List.foldl_cons, List.foldl_append, silent]
  exact expanding.expands.noted

theorem own (expanding : Expanding history i node during between children failure rows)
    (undisturbed : ∀ e ∈ during ++ between, e.action.changesNotices → e.caller = i) :
    browsed (noticed during) (noticed (during ++ between)) rows = ownAnswer failure rows := by
  have seen : noticed during = (failure.map Tree.failureNotice).toList := by
    rw [noticed_of_alone fun e mem => undisturbed e (List.mem_append_left _ mem)]
    exact expanding.expands.noted
  have reported : noticed (during ++ between) = (failure.map Tree.failureNotice).toList := by
    rw [noticed_of_alone undisturbed, System.diary_append, List.foldl_append,
      expanding.expands.noted]
    exact foldl_noted_of_silent ((silent_rowsFor children).does expanding.shows) _
  rw [seen, reported, browsed_own]

end Expanding

theorem exists_expanding {w : World} {sys : System (Tool × Fields × Response)} {i : Nat}
    {given : Fields} {response : Response} (reach : System.Reachable IsCallGiven w sys)
    (ended : sys.callers[i]? = some (.done (.browse, given, response))) :
    ∃ v, Tool.browse.bindArguments given = .ok [v] ∧
      ((∃ f, givenNode v = .error f ∧ System.diary i sys.history = [] ∧
          response = .ofFault f []) ∨
        ∃ node during between children failure rows, givenNode v = .ok node ∧
          Expanding sys.history i node during between children failure rows ∧
          response = browsed (noticed during) (noticed (during ++ between)) rows) := by
  obtain ⟨_, ⟨s, t, given', rfl⟩, does⟩ := reach.does_of_ended ended .done
  obtain ⟨answer, calls, same⟩ := Program.Does.of_map does
  cases answer with
  | error f => cases same
  | ok answer =>
    cases same
    obtain ⟨v, bound, ⟨f, malformed, idle, rfl⟩ | ⟨node, meant, goes⟩⟩ := does_call_browse calls
    · exact ⟨v, bound, .inl ⟨f, malformed, idle, rfl⟩⟩
    obtain ⟨work, shown, seen, reported, children, rows, whole, lists, shows, rfl⟩ :=
      does_browseNode goes
    obtain ⟨failure, expands⟩ := Expanded.of_does lists
    -- The history is parted where this caller empties the list and at its two looks at it.
    obtain ⟨before, later, split, early, laterDone⟩ :=
      System.exists_of_diary_eq (whole.trans (List.nil_append _).symm)
    obtain ⟨during, latest, rfl, rfl, latestDone⟩ := System.exists_of_diary_eq laterDone
    obtain ⟨between, since, rfl, rfl, late⟩ := System.exists_of_diary_eq latestDone
    have first : seen = noticed during := reach.read_notices split
    have second : reported = noticed (during ++ between) := by
      have again : sys.history = before ++ ⟨i, .step .clearNotices, ()⟩ ::
          ((during ++ ⟨i, .step .notices, seen⟩ :: between) ++
            ⟨i, .step .notices, reported⟩ :: since) := by
        rw [split, List.append_assoc, List.cons_append]
      rw [reach.read_notices again, noticed, List.foldl_append, List.foldl_cons, noticed,
        List.foldl_append]
      rfl
    subst first second
    exact ⟨v, bound, .inr ⟨node, during, between, children, failure, rows, meant,
      ⟨⟨before, since, early, late, split⟩, expands, shows⟩, rfl⟩⟩

/-- However calls of tools are interleaved, who expands a node is answered the children that its own
expansion has found. Whether it is told of failures, and of which, is up to the list that all
expansions share: all that was noted since it was last emptied. Where nobody else changes the list
meanwhile, that is the failure of its own expansion. -/
theorem expansions_answer {w : World} {sys : System (Tool × Fields × Response)} {i : Nat}
    {given : Fields} {response : Response} (reach : System.Reachable IsCallGiven w sys)
    (ended : sys.callers[i]? = some (.done (.browse, given, response))) :
    ∃ v, Tool.browse.bindArguments given = .ok [v] ∧
      ((∃ f, givenNode v = .error f ∧ System.diary i sys.history = [] ∧
          response = .ofFault f []) ∨
        ∃ node during between children failure rows, givenNode v = .ok node ∧
          Expanding sys.history i node during between children failure rows ∧
          response = browsed (noticed during) (noticed (during ++ between)) rows ∧
          ((∀ e ∈ during ++ between, e.action.changesNotices → e.caller = i) →
            response = ownAnswer failure rows)) := by
  obtain ⟨v, bound, refused | ⟨node, during, between, children, failure, rows, meant, expanding,
    rfl⟩⟩ := exists_expanding reach ended
  · exact ⟨v, bound, .inl refused⟩
  · exact ⟨v, bound, .inr ⟨node, during, between, children, failure, rows, meant, expanding, rfl,
      expanding.own⟩⟩

def rootsBeside (outside : Outside) (t : Tool) (given : Fields) (schedule : List Nat) :
    System (Tool × Fields × Response) :=
  let called (t : Tool) (given : Fields) : Program (Tool × Fields × Response) :=
    (fun response => (t, given, response)) <$> call ⟨true, false⟩ t given
  System.scheduled outside secondSelected [called .browse [("node", .null)], called t given]
    schedule

theorem reachable_rootsBeside (outside : Outside) (t : Tool) (given : Fields)
    (schedule : List Nat) :
    System.Reachable IsCallGiven secondSelected (rootsBeside outside t given schedule) := by
  refine System.reachable_scheduled _ _ ?_
  intro p mem
  simp only [List.mem_cons, List.not_mem_nil, or_false] at mem
  obtain rfl | rfl := mem
  all_goals exact ⟨_, _, _, rfl⟩

theorem expansion_answers_beside_refresh :
    let sys := rootsBeside workingStones .refresh []
      (List.replicate 5 0 ++ List.replicate 5 1 ++ List.replicate 20 0)
    ∃ during between children failure rows,
      System.Reachable IsCallGiven secondSelected sys ∧
      Expanding sys.history 0 none during between children failure rows ∧
      sys.callers[0]? = some (.done (.browse, [("node", .null)], ownAnswer failure rows)) := by
  intro sys
  have reach : System.Reachable IsCallGiven secondSelected sys := reachable_rootsBeside _ _ _ _
  have called : (sys.result? 0).map (fun x => (x.1, x.2.1)) =
      some (.browse, [("node", .null)]) := by
    decide +kernel
  have alone : ∀ e ∈ sys.history, e.action.changesNotices → e.caller = 0 := by decide +kernel
  obtain ⟨⟨t, given, response⟩, result, same⟩ := Option.map_eq_some_iff.mp called
  cases same
  have ended := System.caller_of_result? result
  obtain ⟨v, bound, outcome⟩ := expansions_answer reach ended
  cases bound
  obtain ⟨_, ⟨⟩, _⟩ | ⟨_, during, between, children, failure, rows, ⟨⟩, expanding, _, own⟩ :=
    outcome
  rw [own fun e mem => alone e (expanding.mem_history mem)] at ended
  exact ⟨during, between, children, failure, rows, reach, expanding, ended⟩

theorem exists_expanding_roots (outside : Outside) (schedule : List Nat) (ok : Bool)
    (noted : List String)
    (ended : ((rootsBeside outside .browse [("node", .null)] schedule).result? 0).map
      (fun x => (x.1, x.2.1, x.2.2.ok)) = some (.browse, [("node", .null)], ok))
    (notes : (System.diary 0 (rootsBeside outside .browse [("node", .null)] schedule).history).foldl
      (fun notices d => d.1.noted notices) [] = noted) :
    ∃ sys during between children failure rows response,
      System.Reachable IsCallGiven secondSelected sys ∧
      sys.callers[0]? = some (.done (.browse, [("node", .null)], response)) ∧
      Expanding sys.history 0 none during between children failure rows ∧
      (failure.map Tree.failureNotice).toList = noted ∧ response.ok = ok := by
  have reach := reachable_rootsBeside outside .browse [("node", .null)] schedule
  obtain ⟨⟨t, given, response⟩, result, same⟩ := Option.map_eq_some_iff.mp ended
  cases same
  have caller := System.caller_of_result? result
  obtain ⟨v, bound, outcome⟩ := exists_expanding reach caller
  cases bound
  obtain ⟨_, ⟨⟩, _⟩ | ⟨_, during, between, children, failure, rows, ⟨⟩, expanding, _⟩ := outcome
  exact ⟨_, during, between, children, failure, rows, response, reach, caller, expanding,
    expanding.noted_diary.symm.trans notes, rfl⟩

/-- Two callers expand the top of the tree at once. Where the second one finds the session busy in
the meantime, the first one is told that it has failed, and has not. Where the stone fails and the
second one begins just after the first one has noted that, the first one is told of no failure. -/
theorem overlapping_expansions_answer :
    (∃ sys during between children rows response,
      System.Reachable IsCallGiven secondSelected sys ∧
      sys.callers[0]? = some (.done (.browse, [("node", .null)], response)) ∧
      Expanding sys.history 0 none during between children none rows ∧ response.ok = false) ∧
    ∃ sys during between children f rows response,
      System.Reachable IsCallGiven secondSelected sys ∧
      sys.callers[0]? = some (.done (.browse, [("node", .null)], response)) ∧
      Expanding sys.history 0 none during between children (some f) rows ∧ response.ok = true := by
  constructor
  · obtain ⟨sys, during, between, children, _ | f, rows, response, reach, ended, expanding, noted,
      failed⟩ := exists_expanding_roots workingStones
        (List.replicate 5 0 ++ List.replicate 10 1 ++ List.replicate 20 0) false []
        (by decide +kernel) (by decide +kernel)
    · exact ⟨sys, during, between, children, rows, response, reach, ended, expanding, failed⟩
    · cases noted
  · obtain ⟨sys, during, between, children, _ | f, rows, response, reach, ended, expanding, noted,
      worked⟩ := exists_expanding_roots failingStones
        (List.replicate 11 0 ++ [1] ++ List.replicate 20 0) true ["Browser query failed: gone"]
        (by decide +kernel) (by decide +kernel)
    · cases noted
    · exact ⟨sys, during, between, children, f, rows, response, reach, ended, expanding, worked⟩

end Tools

end ImageBrowser
