import ImageBrowser.Proofs.Cache.Sharing
import ImageBrowser.Proofs.Programs.Schedule
import ImageBrowser.Proofs.Tree.Expansion

/-!
Which session the entries of the cache and the children of a node come from. What a caller asks, it
asks the session that it found selected, while the key that it fetches for has the session id of the
node. Both are the same session as long as nodes are expanded while their own session is selected;
a node that was kept from another session gets that session's name on the data of the selected one.
-/

namespace ImageBrowser

def Told (history : List Event) (i : Nat) (h : Handle) : Prop :=
  ⟨i, .step .selectedSession, some h⟩ ∈ history

def Asked (history : List Event) (i : Nat) (c : Connection) : Prop :=
  ∃ r answer, ⟨i, .ask c r, answer⟩ ∈ history

def AsksOnly (history : List Event) (i : Nat) (session : Value) : Prop :=
  ∀ {c}, Asked history i c →
    ∃ h, Told history i h ∧ h.connection = c ∧ h.sessionId.canonical = session

/-- An entry was built for a key from answers of one session. -/
def BuiltFrom (history : List Event) (session : Value) (k : CacheKey) (e : CacheEntry) : Prop :=
  ∃ i ticket, Owns history i k ticket ∧ Settles history i k ticket (.ok e) ∧
    AsksOnly history i session

/-- A caller was given an entry: from the table, by the fetch of another one, or at a glance. -/
def Gets (history : List Event) (i : Nat) (k : CacheKey) (e : CacheEntry) : Prop :=
  ⟨i, .step (.request k), .found e⟩ ∈ history ∨ ⟨i, .step (.cached k), some e⟩ ∈ history ∨
    ∃ ticket, Joins history i k ticket ∧ ⟨i, .wait ticket, .ok e⟩ ∈ history

theorem Fetched.mono {history history' rest rest' : List Event} {k : CacheKey} {e : CacheEntry}
    (fetched : Fetched rest history k e) (later : rest ⊆ rest') (more : history ⊆ history') :
    Fetched rest' history' k e := by
  obtain ⟨i, ticket, owns, settles⟩ := fetched
  exact ⟨i, ticket, later owns, more settles⟩

theorem answer_cached {w v : World} {k : CacheKey} {found : Option CacheEntry}
    (answers : Answers w (.step (.cached k)) found v) : found = w.cache.stored.find? k := by
  cases answers
  rfl

namespace System.Reachable

section Ordered

variable {α : Type} {starts : Program α → Prop} {post : Except Fault α → Stage → Prop}
  {w : World} {s : System α} {i : Nat} {k : CacheKey} {e : CacheEntry} {rest : List Event}

variable (ordered : ∀ p, starts p → p.Obeys Stage.inOrder .idle post) (empty : w.cache = {})
include ordered empty

/-- Before an event the caches were coherent, and what followed was a turn. What happened since a
clearing up to then is the beginning of what happened since it. -/
theorem turn_since (reach : Reachable starts w s) (since : Since rest s.history) {a : Action}
    {r : a.Reply} (mem : ⟨i, a, r⟩ ∈ rest) : ∃ before earlier u v stage next,
      Since earlier before ∧ earlier ⊆ rest ∧ before ⊆ s.history ∧
      Coherent before u.cache (stages before) ∧ Answers u a r v ∧
      Turn u.cache stage a r v.cache next := by
  obtain ⟨earlier, after, here⟩ := List.append_of_mem mem
  obtain ⟨before, already, split⟩ : ∃ before, Since earlier before ∧
      s.history = before ++ ⟨i, a, r⟩ :: after := by
    obtain rfl | ⟨first, j, cleared⟩ := since
    · exact ⟨earlier, .inl rfl, here⟩
    · exact ⟨first ++ ⟨j, .step .clearCache, ()⟩ :: earlier, .inr ⟨first, j, rfl⟩, by
        rw [cleared, here, List.append_assoc, List.cons_append]⟩
  obtain ⟨s', next, v, reach', rfl, caller, answers⟩ := reach.answered_event split
  have allowed := (reach'.obeys ordered caller).1
  refine ⟨s'.history, earlier, s'.world, v, _, _, already, ?_, ?_,
    coherent_of_inOrder ordered empty reach', answers, turn_of_answers allowed answers⟩
  · rw [here]
    exact List.subset_append_left _ _
  · rw [split]
    exact List.subset_append_left _ _

theorem fetched_of_gets (reach : Reachable starts w s) (since : Since rest s.history)
    (gets : Gets rest i k e) : Fetched rest s.history k e := by
  have coherent := coherent_of_inOrder ordered empty reach
  obtain mem | mem | ⟨ticket, joins, mem⟩ := gets
  · obtain ⟨_, _, _, _, _, _, already, later, more, coherent, _, turn⟩ :=
      reach.turn_since ordered empty since mem
    exact (coherent.stored turn.lookup already).mono later more
  · obtain ⟨_, _, _, _, _, _, already, later, more, coherent, answers, _⟩ :=
      reach.turn_since ordered empty since mem
    exact (coherent.stored (answer_cached answers).symm already).mono later more
  · obtain ⟨_, _, _, _, _, _, already, later, _, coherent', _, turn⟩ :=
      reach.turn_since ordered empty since joins
    obtain ⟨f, inFlight, rfl⟩ := turn.lookup
    obtain ⟨j, owns⟩ := coherent'.inFlight inFlight already
    obtain ⟨_, _, _, _, _, _, _, _, more, coherent'', _, turn'⟩ :=
      reach.turn_since ordered empty since mem
    obtain ⟨j', k', owns', settles⟩ := coherent''.outcomes turn'.outcome
    obtain ⟨rfl, rfl⟩ := coherent.unique (since.subset (later owns)) (more owns')
    exact ⟨j, f.ticket, later owns, more settles⟩

end Ordered

variable {w : World} {s : System (Option Expansion)} {i : Nat}

theorem told_of_asked (reach : Reachable TreeCall w s) {c : Connection}
    (asked : Asked s.history i c) : ∃ h, Told s.history i h ∧ h.connection = c := by
  obtain ⟨r, answer, mem⟩ := asked
  obtain ⟨before, after, split⟩ := List.append_of_mem mem
  obtain ⟨h, told, same⟩ := reach.allowed (fun _ call => call.attends) split
  refine ⟨h, ?_, same.symm⟩
  rw [Told, split]
  exact List.mem_append_left _ (mem_diary.mp told)

/-- Whoever was answered the children of a node asked only for fetches, all under keys of the
node's session. -/
theorem about_of_expanded (reach : Reachable TreeCall w s) {node : Node} {children : List Node}
    (expanded : s.callers[i]? = some (.done (some ⟨some node, children⟩))) :
    About node (diary i s.history) :=
  reach.obeys (fun _ call => call.attends) expanded rfl

end System.Reachable

/-! What a computed run holds, as lists that can be searched. -/

def toldTo (i : Nat) (history : List Event) : List Handle :=
  history.filterMap fun
    | ⟨j, .step .selectedSession, some h⟩ => if j = i then some h else none
    | _ => none

def askedBy (i : Nat) (history : List Event) : List Connection :=
  history.filterMap fun
    | ⟨j, .ask c _, _⟩ => if j = i then some c else none
    | _ => none

def fetchers (history : List Event) : List (Nat × CacheKey) :=
  history.filterMap fun
    | ⟨i, .step (.request k), .owned _⟩ => some (i, k)
    | _ => none

section Lists

variable {history : List Event} {i ticket : Nat} {k : CacheKey}

theorem mem_toldTo {h : Handle} (told : Told history i h) : h ∈ toldTo i history :=
  List.mem_filterMap.mpr ⟨_, told, if_pos rfl⟩

theorem asked_of_mem {c : Connection} (mem : c ∈ askedBy i history) : Asked history i c := by
  obtain ⟨e, asked, same⟩ := List.mem_filterMap.mp mem
  split at same
  · next j c' r answer =>
    split at same
    · next own =>
      cases same
      subst own
      exact ⟨r, answer, asked⟩
    · cases same
  · cases same

theorem mem_fetchers (owns : Owns history i k ticket) : (i, k) ∈ fetchers history :=
  List.mem_filterMap.mpr ⟨_, owns, rfl⟩

end Lists

def handleOf (number : Nat) (session : String) : Handle :=
  ⟨number, .text session, ⟨.text session⟩⟩

def secondSelected : World :=
  let sessions := ({} : Selection).register (handleOf 0 "session-1") .null
    |>.register (handleOf 1 "session-2") .null
  { selection := { sessions with selected := some (.text "session-2") } }

def oneMethod : Outside
  | .ask _ (.resolve name) => some (.ok (some ⟨1, name, ""⟩))
  | .ask _ (.execute source) => some (.ok ⟨2, source, ""⟩)
  | .ask _ (.fetch _) => some (.ok (.text "Order\t0\taccessing\ttotal\n"))
  | _ => none

def ordersIn (session : String) : SidePath :=
  ⟨⟨⟨.text session, .whole 1, .text "UserGlobals"⟩, .text "Order"⟩, .flag false, .whole 0⟩

def expandedIn (session : String) : System (Option Expansion) :=
  System.scheduled oneMethod secondSelected
    [do let _ ← Sessions.remove (.text "session-1"); return none,
      do
        let children ← Tree.children .log (some (.side (ordersIn session)))
        return some ⟨some (.side (ordersIn session)), children⟩]
    (0 :: List.replicate 20 1)

theorem reachable_expandedIn (session : String) :
    System.Reachable TreeCall secondSelected (expandedIn session) := by
  refine System.reachable_scheduled _ _ ?_
  intro p mem
  rcases List.mem_cons.mp mem with rfl | mem
  · exact .remove _
  · rw [List.mem_singleton.mp mem]
    exact .expand _ _

/-- Whoever fetches was told that the session of its key is selected. -/
def Attuned (history : List Event) : Prop :=
  ∀ {i k ticket h}, Owns history i k ticket → Told history i h → h.sessionId.canonical = k.session

/-- Whatever is asked, in every interleaving of expansions with selecting, removing and refreshing,
is asked of the session that the caller found selected. As long as every fetch is made while the
session of its key is selected, all that is cached under a session id was built from answers of that
session, and so were the children that are answered for a node of it. -/
theorem built_from_own_session {w : World} {s : System (Option Expansion)} (empty : w.cache = {})
    (reach : System.Reachable TreeCall w s) :
    (∀ {i c}, Asked s.history i c → ∃ h, Told s.history i h ∧ h.connection = c) ∧
    (Attuned s.history →
      (∀ {k e}, s.world.cache.stored.find? k = some e → BuiltFrom s.history k.session k e) ∧
      ∀ {i : Nat} {node children}, s.callers[i]? = some (.done (some ⟨some node, children⟩)) →
        AsksOnly s.history i node.session ∧ ∀ {k e}, Gets s.history i k e →
          k.session = node.session ∧ BuiltFrom s.history node.session k e) := by
  refine ⟨reach.told_of_asked, fun attuned => ?_⟩
  have built {k : CacheKey} {e : CacheEntry} (fetched : Fetched s.history s.history k e) :
      BuiltFrom s.history k.session k e := by
    obtain ⟨i, ticket, owns, settles⟩ := fetched
    refine ⟨i, ticket, owns, settles, fun asked => ?_⟩
    obtain ⟨h, told, same⟩ := reach.told_of_asked asked
    exact ⟨h, told, same, attuned owns told⟩
  have ordered (p : Program (Option Expansion)) (call : TreeCall p) := call.inOrder
  have coherent := coherent_of_inOrder ordered empty reach
  refine ⟨fun stored => built (coherent.stored stored (.inl rfl)), ?_⟩
  intro i node children expanded
  have about := reach.about_of_expanded expanded
  refine ⟨fun ⟨r, answer, asked⟩ => ?_, ?_⟩
  · obtain ⟨k, ticket, fetches⟩ := about.asks (System.mem_diary.mpr asked)
    obtain ⟨h, told, same⟩ := reach.told_of_asked ⟨r, answer, asked⟩
    refine ⟨h, told, same, ?_⟩
    rw [attuned (System.mem_diary.mp fetches) told]
    exact about.keys (.inl ⟨_, fetches⟩)
  · intro k e gets
    have looks : LooksUp (System.diary i s.history) k := by
      obtain mem | mem | ⟨ticket, joins, _⟩ := gets
      · exact .inl ⟨_, System.mem_diary.mpr mem⟩
      · exact .inr ⟨_, System.mem_diary.mpr mem⟩
      · exact .inl ⟨_, System.mem_diary.mpr joins⟩
    have same := about.keys looks
    refine ⟨same, ?_⟩
    rw [← same]
    exact built (reach.fetched_of_gets ordered empty (.inl rfl) gets)

theorem built_from_session_selected : ∃ (k : CacheKey) (e : CacheEntry),
    System.Reachable TreeCall secondSelected (expandedIn "session-2") ∧
      Attuned (expandedIn "session-2").history ∧
      (expandedIn "session-2").world.cache.stored.find? k = some e ∧
      BuiltFrom (expandedIn "session-2").history (.text "session-2") k e := by
  let k : CacheKey := .environments (.text "session-2") (.whole 1) (.text "Order") (.whole 0)
  have attuned : Attuned (expandedIn "session-2").history := by
    intro i k' ticket h owns told
    have alone : ∀ f ∈ fetchers (expandedIn "session-2").history, f = (1, k) := by decide +kernel
    have second : ∀ h ∈ toldTo 1 (expandedIn "session-2").history,
        h.sessionId.canonical = k.session := by decide +kernel
    cases alone (i, k') (mem_fetchers owns)
    exact second h (mem_toldTo told)
  have reach := reachable_expandedIn "session-2"
  obtain ⟨_, own⟩ := built_from_own_session rfl reach
  have found : ((expandedIn "session-2").world.cache.stored.find? k).isSome := by decide +kernel
  obtain ⟨e, stored⟩ := Option.isSome_iff_exists.mp found
  exact ⟨k, e, reach, attuned, stored, (own attuned).1 stored⟩

/-- A node that was kept from the first session is expanded from answers of the second one, and
what they were made into is cached under the first one's id. -/
theorem built_from_other_session : ∃ (children : List Node) (k : CacheKey) (e : CacheEntry),
    System.Reachable TreeCall secondSelected (expandedIn "session-1") ∧
      (expandedIn "session-1").callers[1]? =
        some (.done (some ⟨some (.side (ordersIn "session-1")), children⟩)) ∧
      .category (ordersIn "session-1") (.text "accessing") ∈ children ∧
      ¬ AsksOnly (expandedIn "session-1").history 1 (.text "session-1") ∧
      (expandedIn "session-1").world.cache.stored.find? k = some e ∧
      k.session = .text "session-1" ∧
      ¬ BuiltFrom (expandedIn "session-1").history k.session k e := by
  let k : CacheKey := .environments (.text "session-1") (.whole 1) (.text "Order") (.whole 0)
  have elsewhere : ¬ AsksOnly (expandedIn "session-1").history 1 (.text "session-1") := by
    intro only
    have asked : ⟨.text "session-2"⟩ ∈ askedBy 1 (expandedIn "session-1").history := by
      decide +kernel
    obtain ⟨h, told, _, same⟩ := only (asked_of_mem asked)
    have other : ∀ h ∈ toldTo 1 (expandedIn "session-1").history,
        h.sessionId.canonical ≠ .text "session-1" := by decide +kernel
    exact other h (mem_toldTo told) same
  have ended : (expandedIn "session-1").result? 1 = some (some ⟨some (.side (ordersIn "session-1")),
      [.category (ordersIn "session-1") (.text allRow),
        .category (ordersIn "session-1") (.text "accessing")]⟩) := by decide +kernel
  have found : ((expandedIn "session-1").world.cache.stored.find? k).isSome := by decide +kernel
  obtain ⟨e, stored⟩ := Option.isSome_iff_exists.mp found
  refine ⟨_, k, e, reachable_expandedIn _, System.caller_of_result? ended, by simp, elsewhere,
    stored, rfl, ?_⟩
  rintro ⟨i, ticket, owns, _, only⟩
  have alone : ∀ f ∈ fetchers (expandedIn "session-1").history, f.1 = 1 := by decide +kernel
  obtain rfl : i = 1 := alone (i, k) (mem_fetchers owns)
  exact elsewhere only

end ImageBrowser
