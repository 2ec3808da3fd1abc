import ImageBrowser.Proofs.Tools.Changes
import ImageBrowser.Proofs.Tree.Attribution

/-!
What is answered after a change was fetched after it. No tool but the one that expands nodes takes
part in a request to the cache, and that one makes one request at a time; so the cache is coherent
whatever tools are called at once, and the clearing in a change parts what is older from what comes
later.
-/

namespace ImageBrowser

open Program (Keeps)

abbrev Program.Unrequesting {α : Type} (p : Program α) : Prop := p.Only fun a => !a.isRequest

section Unrequesting

variable {α β : Type}

theorem Program.Aside.unrequesting {p : Program α} (apart : p.Aside) : p.Unrequesting :=
  apart.mono fun _ aside => by simpa using not_isRequest_of_isAside aside

theorem Action.not_isRequest_of_isOfCall (a : Action) (call : a.isOfCall) : !a.isRequest := by
  cases a with
  | step t => cases t <;> first | rfl | cases call
  | wait ticket => cases call
  | _ => rfl

theorem Program.unrequesting_reply {a : Action} {reply : a.Reply → Except Fault α}
    (other : !a.isRequest) : (Program.act a fun r => .ofExcept (reply r)).Unrequesting :=
  Program.only_act other fun _ => .ofExcept _

namespace Tools

section Only

variable {sort : Action → Bool} (apart : ∀ a, a.isAside → sort a)
  (calls : ∀ a, a.isOfCall → sort a)

include calls in
theorem only_inSelected {body : Handle → Program α} (bodies : ∀ h, (body h).Only Action.isOfCall) :
    (inSelected body).Only sort :=
  keeps_inSelected (Program.only_act (calls _ rfl) .done) fun h => (bodies h).mono calls

include calls in
theorem only_query {name : String} {details : Fields} {body : Handle → Program Value}
    (bodies : ∀ h, (body h).Only Action.isOfCall) : (query name details body).Only sort :=
  keeps_answering (only_inSelected calls bodies) (fun _ => .done _) fun _ => .done _

include apart calls

theorem only_disconnect (removes : ∀ id, sort (.step (.removeSession id))) (id : Value) :
    (disconnect id).Only sort := by
  apply Keeps.bind ((Sessions.aside_contains id).mono apart)
  intro known
  split
  · apply Keeps.bind (Sessions.only_remove id removes apart)
    intro h
    exact keeps_answering (Program.only_act (calls _ rfl) .ofExcept) (fun _ => .done _)
      fun _ => .done _
  · exact .done _

theorem only_getContent (node locator : Value) : (getContent node locator).Only sort := by
  have run {h : Handle} {label : String} {kind : Smalltalk.SnippetKind} {values : List Value} :
      (h.run label kind values).Only sort := h.run_logical.ofCall.mono calls
  have shown (node : Node) : (Tree.content node).Only sort := by
    apply Keeps.bind (Program.only_act (calls _ rfl) .done)
    intro selected
    cases selected with
    | none => exact .fail _
    | some h =>
      cases node with
      | definition _ | comment _ | method _ _ _ => exact run
      | _ => exact .fail _
  have located (l : Location) : (contentAt l).Only sort := by
    have handle : (handleFor (.text l.sessionId)).Only sort := by
      apply Keeps.bind ((Sessions.aside_contains _).mono apart)
      intro known
      split
      · exact (Sessions.aside_get _).mono apart
      · exact .fail _
    apply Keeps.bind handle
    intro h
    split
    all_goals exact run
  have found : (contentOf node locator).Only sort := by
    unfold contentOf
    split
    · exact .bind (.ofExcept _) located
    split
    · exact .bind (.ofExcept _) shown
    · exact .fail _
  exact keeps_answering found (fun _ => .done _) fun _ => .done _

theorem Refreshing.only {p : Program Response} (refreshing : Refreshing p) : p.Only sort := by
  cases refreshing with
  | refused => exact .done _
  | raised f => exact .fail f
  | tried bodies =>
    apply keeps_answering (only_inSelected calls bodies) fun _ => .done _
    exact fun _ => .bind (Tree.aside_refresh.mono apart) fun _ => .done _

theorem only_run (removes : ∀ id, sort (.step (.removeSession id))) (s : Switches) {t : Tool}
    (other : t ≠ .connect) (unexpanding : t ≠ .browse) (values : List Value) :
    (run s t values).Only sort := by
  by_cases changes : t.changes
  · exact (refreshing_run changes values).only apart calls
  have reads {h : Handle} {label : String} {kind : Smalltalk.SnippetKind} {values : List Value} :
      (h.run label kind values).Only Action.isOfCall := h.run_logical.ofCall
  unfold run
  split
  · exact absurd rfl other
  · exact only_disconnect apart calls removes _
  · exact aside_listSessions.mono apart
  · exact (aside_selectSession _).mono apart
  · exact absurd rfl unexpanding
  · exact aside_refresh.mono apart
  · exact only_getContent apart calls _ _
  iterate 8
    exact only_query calls fun h => .bind (.bind reads fun _ => .done _) fun _ => .done _
  iterate 13 exact absurd rfl changes
  · exact .fail _

end Only

theorem unrequesting_connect (mode user password stone host service : Value) :
    (connect mode user password stone host service).Unrequesting := by
  have asked (c : Connection) (r : Request) : (Program.ask c r).Unrequesting :=
    Program.unrequesting_reply rfl
  have summary (c : Connection) : c.summary.Unrequesting :=
    .bind (.bind (asked c _) fun _ => asked c _) fun _ =>
    .bind (.bind (asked c _) fun _ => asked c _) fun _ =>
    .bind (.bind (asked c _) fun _ => asked c _) fun _ =>
    .bind (.bind (asked c _) fun _ => asked c _) fun _ => .done _
  have added (c : Connection) (metadata : Value) :
      (Sessions.add c metadata .null).Unrequesting :=
    .bind (Program.only_act rfl .done) fun _ => .bind (Program.only_act rfl .done) fun _ => .done _
  have enrolled (c : Connection) (summary : Value) : (enroll c mode summary).Unrequesting :=
    .bind (added c _) fun id => (aside_selectFirst mode summary id).unrequesting
  unfold connect
  split
  · exact .done _
  · next l _ =>
    have opened : l.open.Unrequesting :=
      .bind (Program.only_act rfl .done) fun _ =>
        .handling (Program.unrequesting_reply rfl) fun _ => .fail _
    apply keeps_answering opened fun _ => .done _
    intro c
    exact keeps_answering (summary c) (fun _ => .bind (asked c _) fun _ => .done _) (enrolled c)

theorem inOrder_browse (node : Value) : (browse node).InOrder := by
  have expanded (node : Option Node) : (browseNode node).InOrder := by
    have cleared : (Program.step .clearNotices).Unrequesting := Program.only_act rfl .done
    refine cleared.requestsNothing.andThen fun _ => ?_
    refine (Tree.inOrder_children .gather node).bind fun children => ?_
    have rows := (aside_rowsFor aside_childRow children).unrequesting
    apply Program.Only.requestsNothing
    exact .bind (Program.only_act rfl .done) fun _ => .bind rows fun _ =>
      .bind (Program.only_act rfl .done) fun _ => .done _
  have meant : (nodeOf node).attempt.RequestsNothing :=
    Program.Only.requestsNothing (.attempt (aside_nodeOf node).unrequesting)
  refine meant.andThen fun outcome => ?_
  cases outcome with
  | ok node => exact expanded node
  | error f =>
    dsimp only
    split
    · trivial
    · trivial

theorem inOrder_run (s : Switches) (t : Tool) (values : List Value) : (run s t values).InOrder := by
  have other {p : Program Response} (unrequesting : p.Unrequesting) : p.InOrder :=
    unrequesting.requestsNothing.inOrder
  by_cases connects : t = .connect
  · subst connects
    unfold run
    split
    case h_1 => exact other (unrequesting_connect _ _ _ _ _ _)
    all_goals first | contradiction | exact other (.fail _)
  by_cases browses : t = .browse
  · subst browses
    unfold run
    split
    case h_5 => exact inOrder_browse _
    all_goals first | contradiction | exact other (.fail _)
  exact other (only_run (fun a aside => by simpa using not_isRequest_of_isAside aside)
    Action.not_isRequest_of_isOfCall (fun _ => rfl) s connects browses values)

end Tools

end Unrequesting

namespace Tools

def IsLabelledCall (p : Program (Tool × Response)) : Prop :=
  ∃ s t given, p = (t, ·) <$> call s t given

theorem IsLabelledCall.inOrder {p : Program (Tool × Response)} (labelled : IsLabelledCall p) :
    p.InOrder := by
  obtain ⟨s, t, given, rfl⟩ := labelled
  refine Program.InOrder.bind ?_ fun _ => trivial
  show (Program.ofExcept (t.bindArguments given) >>= _).InOrder
  cases t.bindArguments given with
  | error f => trivial
  | ok values => exact inOrder_run s t values

end Tools

namespace System.Reachable

variable {w : World} {sys : System (Tool × Response)} {i j : Nat} {t : Tool} {response : Response}

theorem exists_clearing (reach : Reachable Tools.IsLabelledCall w sys)
    (ended : sys.callers[i]? = some (.done (t, response))) (changes : t.changes)
    (worked : response.ok = true) :
    ∃ before since, sys.history = before ++ ⟨i, .step .clearCache, ()⟩ :: since ∧
      ∀ e ∈ since, e.caller = i → ¬ e.action.isRemote := by
  obtain ⟨_, ⟨s, t', given, rfl⟩, does⟩ := reach.does_of_ended ended .done
  obtain ⟨_, whole, none, split, calls, finished⟩ | ⟨_, _, ⟨⟩⟩ := Program.Does.of_bind does
  obtain ⟨rfl, ⟨⟩⟩ := Program.does_done.mp finished
  rw [List.append_nil] at split
  obtain ⟨failed, _⟩ | ⟨_, work, rest, rfl, first, refreshes⟩ :=
    (Tools.refreshing_call changes given).of_does calls
  · rw [worked] at failed
    cases failed
  obtain ⟨rest, rfl, once, near⟩ := Tools.exists_rest_of_refresh refreshes
  have mem : ⟨i, .step .clearCache, ()⟩ ∈ sys.history := by
    rw [← mem_diary, split]
    exact List.mem_append_right _ List.mem_cons_self
  obtain ⟨before, since, here⟩ := List.append_of_mem mem
  rw [here] at split
  obtain ⟨_, same⟩ := diary_split split (Tools.isOfCall_ne_clearCache first) once
  refine ⟨before, since, here, ?_⟩
  rintro ⟨_, a, r⟩ among rfl
  exact near ⟨a, r⟩ (same ▸ mem_diary.mpr among)

end System.Reachable

namespace Tools

/-- A tool that changes the image or controls the transaction, from whatever state and whatever
happens on the way: where it works, the cache is emptied once, all listeners of the tree who are
alive are told once, and only when nothing is asked of the stone any more; where it does not, all
that is cached, the sessions and the selection are as before, and nobody is told. So whoever calls a
tool after that, with any others at work as well, is given nothing that was fetched before. -/
theorem changes_refresh_once {t : Tool} (changes : t.changes) :
    (∀ {s given ds response w v}, (call s t given).Does ds (.ok response) → Leads w ds v →
      (response.ok = true → Refreshed w v ds) ∧ (response.ok = false → Untouched w v ds)) ∧
    ∀ {w : World} {sys : System (Tool × Response)} {i j response}, w.cache = {} →
      System.Reachable IsLabelledCall w sys →
      sys.callers[i]? = some (.done (t, response)) → response.ok = true →
      sys.history.Pairwise (fun e e' => e.caller = j → e'.caller ≠ i) →
      ∃ before since, sys.history = before ++ ⟨i, .step .clearCache, ()⟩ :: since ∧
        (∀ e ∈ since, e.caller = i → ¬ e.action.isRemote) ∧ (∀ e ∈ before, e.caller ≠ j) ∧
        ∀ {k e}, Gets sys.history j k e → Fetched since sys.history k e := by
  refine ⟨effects_of_call changes, ?_⟩
  intro w sys i j response empty reach ended worked later
  obtain ⟨before, since, split, near⟩ := reach.exists_clearing ended changes worked
  have late : ∀ e ∈ before, e.caller ≠ j := by
    intro e mem same
    rw [split, List.pairwise_append] at later
    exact later.2.2 e mem _ List.mem_cons_self same rfl
  refine ⟨before, since, split, near, late, ?_⟩
  intro k e gets
  have among {a : Action} {r : a.Reply} (mem : ⟨j, a, r⟩ ∈ sys.history)
      (other : a ≠ .step .clearCache) : ⟨j, a, r⟩ ∈ since := by
    rw [split] at mem
    obtain early | mem := List.mem_append.mp mem
    · exact absurd rfl (late _ early)
    obtain same | mem := List.mem_cons.mp mem
    · cases same
      exact absurd rfl other
    · exact mem
  have recent : Gets since j k e := by
    obtain mem | mem | ⟨ticket, joins, mem⟩ := gets
    · exact .inl (among mem nofun)
    · exact .inr (.inl (among mem nofun))
    · exact .inr (.inr ⟨ticket, among joins nofun, among mem nofun⟩)
  exact reach.fetched_of_gets (fun _ call => call.inOrder) empty (.inr ⟨before, i, split⟩) recent

def watched : World :=
  { secondSelected with treeListeners := ({} : Subscribers Nat).subscribe 0 }

def failingStones : Outside
  | .ask _ _ => some (.error (.stone ⟨"gone", .whole 0, none, .flag true, none⟩))
  | .tell _ _ => some (.ok ())
  | _ => none

def workingStones : Outside
  | .tell _ _ => some (.ok ())
  | a => oneMethod a

def addReports : Program Response :=
  call ⟨true, false⟩ .addDictionary [("dictionary_name", .text "Reports")]

theorem exists_call (outside : Outside) (p : Program Response) (w : World) (ok : Bool)
    (ended : ((p.alone outside w).map fun x => x.1.toOption.map Response.ok) = some (some ok)) :
    ∃ ds response v, p.Does ds (.ok response) ∧ Leads w ds v ∧ response.ok = ok := by
  obtain ⟨⟨outcome, v⟩, alone, same⟩ := Option.map_eq_some_iff.mp ended
  obtain ⟨ds, does, leads⟩ := Program.exists_does_of_alone alone
  cases outcome with
  | error f => cases same
  | ok response => exact ⟨ds, response, v, does, leads, Option.some.inj same⟩

def browsedAgain : System (Tool × Response) :=
  let browses : Program (Tool × Response) := (.browse, ·) <$>
    call ⟨true, false⟩ .browse [("node", (Node.side (ordersIn "session-2")).toValue)]
  System.scheduled workingStones watched
    [browses, (.addDictionary, ·) <$> addReports, browses, browses]
    (List.replicate 30 0 ++ List.replicate 30 1 ++ List.replicate 30 2 ++ List.replicate 30 3)

theorem reachable_browsedAgain :
    System.Reachable IsLabelledCall watched browsedAgain := by
  refine System.reachable_scheduled _ _ ?_
  intro p mem
  simp only [List.mem_cons, List.not_mem_nil, or_false] at mem
  obtain rfl | rfl | rfl | rfl := mem
  all_goals exact ⟨_, _, _, rfl⟩

def foundBy (history : List Event) : List (Nat × CacheKey × CacheEntry) :=
  history.filterMap fun
    | ⟨i, .step (.request k), .found e⟩ => some (i, k, e)
    | _ => none

theorem mem_of_foundBy {history : List Event} {i : Nat} {k : CacheKey} {e : CacheEntry}
    (mem : (i, k, e) ∈ foundBy history) : ⟨i, .step (.request k), .found e⟩ ∈ history := by
  obtain ⟨event, among, same⟩ := List.mem_filterMap.mp mem
  split at same
  · cases same
    exact among
  · cases same

theorem dictionary_refreshes_once :
    (∃ ds response v, addReports.Does ds (.ok response) ∧ Leads watched ds v ∧
      response.ok = true ∧ Refreshed watched v ds) ∧
    (∃ ds response v, addReports.Does ds (.ok response) ∧ Leads watched ds v ∧
      response.ok = false ∧ Untouched watched v ds) ∧
    ∃ before since k e, System.Reachable IsLabelledCall watched browsedAgain ∧
      browsedAgain.history = before ++ ⟨1, .step .clearCache, ()⟩ :: since ∧
      Gets browsedAgain.history 3 k e ∧ Fetched since browsedAgain.history k e := by
  have changes : Tool.addDictionary.changes := rfl
  obtain ⟨effects, fresh⟩ := changes_refresh_once changes
  refine ⟨?_, ?_, ?_⟩
  · obtain ⟨ds, response, v, does, leads, worked⟩ :=
      exists_call workingStones addReports watched true (by decide +kernel)
    exact ⟨ds, response, v, does, leads, worked, (effects does leads).1 worked⟩
  · obtain ⟨ds, response, v, does, leads, failed⟩ :=
      exists_call failingStones addReports watched false (by decide +kernel)
    exact ⟨ds, response, v, does, leads, failed, (effects does leads).2 failed⟩
  · have ended : (browsedAgain.result? 1).map (fun x => (x.1, x.2.ok)) =
        some (.addDictionary, true) := by
      decide +kernel
    obtain ⟨⟨t, response⟩, result, same⟩ := Option.map_eq_some_iff.mp ended
    obtain ⟨rfl, worked⟩ := Prod.mk.inj same
    have later : browsedAgain.history.Pairwise fun e e' => e.caller = 3 → e'.caller ≠ 1 := by
      decide +kernel
    obtain ⟨before, since, split, _, _, fetched⟩ :=
      fresh rfl reachable_browsedAgain (System.caller_of_result? result) worked later
    have found : ((foundBy browsedAgain.history).find? fun f => f.1 = 3).isSome := by
      decide +kernel
    obtain ⟨⟨i, k, e⟩, first⟩ := Option.isSome_iff_exists.mp found
    obtain rfl : i = 3 := by simpa using List.find?_some first
    have gets : Gets browsedAgain.history 3 k e :=
      .inl (mem_of_foundBy (List.mem_of_find?_eq_some first))
    exact ⟨before, since, k, e, reachable_browsedAgain, split, gets, fetched gets⟩

end Tools

end ImageBrowser
