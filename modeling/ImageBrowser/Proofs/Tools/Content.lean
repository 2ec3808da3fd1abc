import ImageBrowser.Proofs.Calls.Sending
import ImageBrowser.Proofs.Locator.RoundTrip
import ImageBrowser.Proofs.Tools.Service

/-!
The two ways of asking for the text of a document. A node leads to the session that is selected, a
locator to the session that it names: they agree only where these are the same session, or where
neither of them can be asked.
-/

namespace ImageBrowser

open Smalltalk (SnippetKind)

namespace Location

def askedIn (l : Location) (h : Handle) : Program String :=
  match l.document with
  | .definition => h.classDefinition (.text l.className)
  | .comment => h.classComment (.text l.className)
  | .method isMeta _ selector environment =>
    h.methodSource (.text l.className) (.flag isMeta) (.text selector) (.whole environment)

def askedInSelected (l : Location) : Option Handle → Program String
  | none => Program.fail (.refused .nothingSelected)
  | some g => l.askedIn g

theorem askedIn_eq_fetch (l : Location) (h : Handle) :
    ∃ label code, l.askedIn h = h.fetch label code := by
  obtain ⟨sessionId, dictionaryName, className, document⟩ := l
  cases document with
  | definition | comment => exact ⟨_, _, rfl⟩
  | method isMeta category selector environment =>
    obtain ⟨snippet, made⟩ : ∃ snippet, SnippetKind.methodSource.snippet
        [.text className, .flag isMeta, .text selector, .whole environment] = .ok snippet :=
      formed_methodSource (Value.isText_text className) (Value.isText_text selector)
        ⟨environment, rfl⟩
    exact ⟨_, _, Handle.run_eq_fetch made⟩

theorem obeys_askedIn (l : Location) (h : Handle) :
    (l.askedIn h).Obeys (h.conduct fun _ _ => True) {} fun o s => Handle.Ends o s.standing := by
  have anything (source : Value) : Scope.Fetches (fun _ _ => True) source :=
    ⟨fun _ => trivial, fun _ => trivial, fun _ => trivial⟩
  obtain ⟨label, code, same⟩ := l.askedIn_eq_fetch h
  rw [same]
  exact Handle.logical_fetch (anything code) {} rfl

theorem sends_askedIn_of_busy (l : Location) {h : Handle} {w : World} {calls : List Doing}
    {outcome : Except Fault String} (busy : 0 < w.depth h.number) :
    (l.askedIn h).Sends w calls outcome ↔ calls = [] ∧ outcome = .error (.refused .busy) := by
  obtain ⟨label, code, same⟩ := l.askedIn_eq_fetch h
  rw [same]
  exact Handle.sends_fetch_of_busy busy

theorem asks_own_session {l : Location} {h : Handle} {w : World} {calls : List Doing}
    {outcome : Except Fault String} (free : ¬ 0 < w.depth h.number)
    (sends : (l.askedIn h).Sends w calls outcome) :
    ∃ d ∈ calls, ∃ r, d.1 = .ask h.connection r := by
  obtain ⟨label, code, same⟩ := l.askedIn_eq_fetch h
  have asks := Handle.asks_of_sends (l.obeys_askedIn h) sends
  rw [same] at sends
  obtain ⟨d, mem⟩ := List.exists_mem_of_ne_nil _ (Handle.ne_nil_of_sends_fetch free sends)
  exact ⟨d, mem, asks d mem⟩

end Location

namespace Server

def sessionOf (number : Nat) (id : String) : Handle := ⟨number, .text id, ⟨.text id⟩⟩

def twoSessions : World :=
  let sessions := ({} : Selection).register (sessionOf 0 "session-1") .null
    |>.register (sessionOf 1 "session-2") .null
  { initial {} with
    selection := (sessions.select (some (.text "session-2"))).2
    cache := ({} : Cache CacheKey CacheEntry).clear }

theorem reached_twoSessions : Reached {} twoSessions := by
  have admitted (a : Action) (r : a.Reply) (answered : none = some r) :
      Outlook.unlimited.admits a r := nomatch answered
  have first : Reached {} { initial {} with
      selection := ({} : Selection).register (sessionOf 0 "session-1") .null } :=
    Reached.initial.changed (c := .adopt (sessionOf 0 "session-1") .null)
      (Program.runs_of_alone (fun _ => none) admitted rfl)
  have both : Reached {} { initial {} with
      selection := (({} : Selection).register (sessionOf 0 "session-1") .null).register
        (sessionOf 1 "session-2") .null } :=
    first.changed (c := .adopt (sessionOf 1 "session-2") .null)
      (Program.runs_of_alone (fun _ => none) admitted rfl)
  exact both.changed (c := .select (.text "session-2"))
    (Program.runs_of_alone (fun _ => none) admitted rfl)

end Server

namespace Tools

def contentResponse : Except Fault String → Except Fault Response
  | .ok s => .ok (.success [("content", .text s)])
  | .error f => if f.isExpected || isMalformed f then .ok (.ofFault f []) else .error f

theorem getContent_eq (node locator : Value) :
    getContent node locator =
      (contentOf node locator).attempt >>= fun o => Program.ofExcept (contentResponse o) := by
  unfold getContent answering
  congr 1
  funext o
  cases o with
  | ok s => rfl
  | error f =>
    simp only [contentResponse]
    split <;> rfl

variable {s : Switches} {w : World} {l : Location} {calls : List Doing}

theorem content_node (l : Location) (index : Value) :
    Tree.content (l.node index) =
      Program.act (.step .selectedSession) fun selected => l.askedInSelected selected := by
  obtain ⟨sessionId, dictionaryName, className, document⟩ := l
  refine congrArg (Program.act _) (funext fun selected => ?_)
  cases selected with
  | none => rfl
  | some g => cases document <;> rfl

theorem sends_content_by_node {index : Value} {outcome : Except Fault Response} :
    (call s .getContent [("node", (l.node index).toValue)]).Sends w calls outcome ↔
      ∃ o, (l.askedInSelected w.selection.selectedHandle).Sends w calls o ∧
        outcome = contentResponse o := by
  have asks : contentOf (l.node index).toValue .null = Tree.content (l.node index) := by
    unfold contentOf
    rw [if_neg (by simp), if_pos (by simp [Node.toValue]), Node.ofValue_toValue]
    rfl
  show (getContent (l.node index).toValue .null).Sends w calls outcome ↔ _
  rw [getContent_eq, Program.sends_attempt_bind, asks, content_node]
  exact exists_congr fun o => and_congr_left' Program.sends_act_step

theorem sends_content_by_locator {locator : String} (parsed : Locator.parse locator = .ok l)
    {h : Handle} (connected : w.selection.session? (.text l.sessionId) = some h)
    {outcome : Except Fault Response} :
    (call s .getContent [("locator", .text locator)]).Sends w calls outcome ↔
      ∃ o, (l.askedIn h).Sends w calls o ∧ outcome = contentResponse o := by
  have asks : contentOf .null (.text locator) = contentAt l := by
    unfold contentOf
    rw [if_pos (by simp)]
    show (Program.ofExcept (Locator.parse locator) >>= contentAt) = _
    rw [parsed]
    rfl
  -- the session is looked up once to see that it is there, and once more for its handle
  have found {o : Except Fault String} :
      (contentAt l).Sends w calls o ↔ (l.askedIn h).Sends w calls o := by
    show (Program.act (.step (.sessionOf (.text l.sessionId))) _).Sends _ _ _ ↔ _
    rw [Program.sends_act_step]
    show (Program.bind (if (w.selection.session? (.text l.sessionId)).isSome then _ else _)
      _).Sends w _ _ ↔ _
    rw [connected]
    show (Program.act (.step (.sessionOf (.text l.sessionId))) _).Sends _ _ _ ↔ _
    rw [Program.sends_act_step]
    show (Program.bind (Sessions.orMissing _ (w.selection.session? (.text l.sessionId)))
      _).Sends w _ _ ↔ _
    rw [connected]
    rfl
  show (getContent .null (.text locator)).Sends w calls outcome ↔ _
  rw [getContent_eq, Program.sends_attempt_bind, asks]
  exact exists_congr fun o => and_congr_left' found

theorem exists_sends_apart {g h : Handle} (free : ¬ 0 < w.depth g.number)
    (apart : g.connection ≠ h.connection) : ∃ calls o, (l.askedIn g).Sends w calls o ∧
      ∀ o', ¬ (l.askedIn h).Sends w calls o' := by
  obtain ⟨calls, o, sends⟩ := Handle.exists_sends (l.obeys_askedIn g) w
  refine ⟨calls, o, sends, fun o' sends' => ?_⟩
  obtain ⟨d, mem, r, asks⟩ := l.asks_own_session free sends
  obtain ⟨r', asks'⟩ := Handle.asks_of_sends (l.obeys_askedIn h) sends' d mem
  rw [asks, Action.ask.injEq] at asks'
  exact apart asks'.1

theorem parse_locator (writable : l.IsWritable) {index : Value} {locator : String}
    (made : Locator.ofNode (l.node index) = .ok (some locator)) :
    Locator.parse locator = .ok l := by
  obtain ⟨locator', made', text⟩ := Locator.ofNode_node l index
  obtain rfl := Option.some.inj (Except.ok.inj (made.symm.trans made'))
  exact Locator.parse_written writable text

theorem not_agree_of_apart {index : Value} {locator : String}
    (parsed : Locator.parse locator = .ok l) {g h : Handle}
    (connected : w.selection.session? (.text l.sessionId) = some h)
    (selected : w.selection.selectedHandle = some g) (apart : g.connection ≠ h.connection)
    (free : 0 < w.depth g.number → ¬ 0 < w.depth h.number) :
    ¬ Program.Agree w (call s .getContent [("node", (l.node index).toValue)])
      (call s .getContent [("locator", .text locator)]) := by
  intro agree
  by_cases busy : 0 < w.depth g.number
  · obtain ⟨calls, o, sends, never⟩ := exists_sends_apart (l := l) (free busy) apart.symm
    have sent := (agree _ _).mpr ((sends_content_by_locator parsed connected).mpr ⟨o, sends, rfl⟩)
    rw [sends_content_by_node, selected] at sent
    obtain ⟨o', sends', _⟩ := sent
    exact never o' sends'
  · obtain ⟨calls, o, sends, never⟩ := exists_sends_apart (l := l) busy apart
    rw [← Location.askedInSelected, ← selected] at sends
    have sent := (agree _ _).mp (sends_content_by_node.mpr ⟨o, sends, rfl⟩)
    rw [sends_content_by_locator parsed connected] at sent
    obtain ⟨o', sends', _⟩ := sent
    exact never o' sends'

theorem not_agree_of_none {index : Value} {locator : String}
    (parsed : Locator.parse locator = .ok l) {h : Handle}
    (connected : w.selection.session? (.text l.sessionId) = some h)
    (unselected : w.selection.selectedHandle = none) :
    ¬ Program.Agree w (call s .getContent [("node", (l.node index).toValue)])
      (call s .getContent [("locator", .text locator)]) := by
  intro agree
  have refused : (l.askedInSelected w.selection.selectedHandle).Sends w []
      (.error (.refused .nothingSelected)) := by
    rw [unselected]
    exact Program.sends_fail.mpr ⟨rfl, rfl⟩
  have sent := (agree _ _).mp (sends_content_by_node.mpr ⟨_, refused, rfl⟩)
  rw [sends_content_by_locator parsed connected] at sent
  obtain ⟨o, sends, same⟩ := sent
  by_cases busy : 0 < w.depth h.number
  · obtain ⟨_, rfl⟩ := (l.sends_askedIn_of_busy busy).mp sends
    have messages := congrArg (fun o => o.toOption.map (·.error.map (·.message))) same
    exact absurd messages (by decide)
  · obtain ⟨d, mem, _⟩ := l.asks_own_session busy sends
    exact nomatch mem

/-- The two ways of asking for a document make the same calls and get the same answer exactly where
the session selected is the one that the document is in, or both of these sessions are busy. -/
theorem content_ways_agree_iff (writable : l.IsWritable) (index : Value) {locator : String}
    (made : Locator.ofNode (l.node index) = .ok (some locator)) {h : Handle}
    (connected : w.selection.session? (.text l.sessionId) = some h)
    (apart : ∀ g, w.selection.selectedHandle = some g → g.connection = h.connection → g = h) :
    Program.Agree w (call s .getContent [("node", (l.node index).toValue)])
        (call s .getContent [("locator", .text locator)]) ↔
      ∃ g, w.selection.selectedHandle = some g ∧
        (g = h ∨ 0 < w.depth g.number ∧ 0 < w.depth h.number) := by
  have parsed := parse_locator writable made
  constructor
  · intro agree
    cases selected : w.selection.selectedHandle with
    | none => exact absurd agree (not_agree_of_none parsed connected selected)
    | some g =>
      refine ⟨g, rfl, ?_⟩
      by_contra! differ
      obtain ⟨other, notBoth⟩ := differ
      exact not_agree_of_apart parsed connected selected (fun same => other (apart g selected same))
        (fun busy => Int.not_lt.mpr (notBoth busy)) agree
  · rintro ⟨g, selected, agree⟩ calls outcome
    rw [sends_content_by_node, sends_content_by_locator parsed connected, selected]
    apply exists_congr
    intro o
    apply and_congr_left'
    rcases agree with rfl | ⟨busy, busy'⟩
    · rfl
    · exact (l.sends_askedIn_of_busy busy).trans (l.sends_askedIn_of_busy busy').symm

def orders : Location := ⟨"session-1", "Globals", "Order", .definition⟩

def ordersLocator : String := "gemstone://session-1/Globals/Order/definition"

theorem ofNode_orders : Locator.ofNode (orders.node (.whole 1)) = .ok (some ordersLocator) := by
  cbv

theorem content_ways_agree_in_one_session :
    Program.Agree Server.oneSession
      (call ⟨false, false⟩ .getContent [("node", (orders.node (.whole 1)).toValue)])
      (call ⟨false, false⟩ .getContent [("locator", .text ordersLocator)]) := by
  let h : Handle := ⟨0, .text "session-1", ⟨.text "session-1"⟩⟩
  have selected : Server.oneSession.selection.selectedHandle = some h := by decide +kernel
  have connected : Server.oneSession.selection.session? (.text "session-1") = some h := by
    decide +kernel
  have apart (g : Handle) (found : Server.oneSession.selection.selectedHandle = some g)
      (_ : g.connection = h.connection) : g = h := Option.some.inj (found.symm.trans selected)
  have iff := content_ways_agree_iff (l := orders) (s := ⟨false, false⟩) trivial (.whole 1)
    ofNode_orders connected apart
  exact iff.mpr ⟨h, selected, .inl rfl⟩

def namingSession : Outside
  | .ask _ (.resolve name) => some (.ok (some ⟨1, name, ""⟩))
  | .ask c (.execute _) => some (.ok ⟨2, c.name, ""⟩)
  | .ask _ (.fetch object) => some (.ok object.description)
  | _ => none

/-- A node of the first session is answered by the second one, which is selected, and its locator by
the first one. -/
theorem content_ways_differ :
    let byNode := call ⟨false, false⟩ .getContent [("node", (orders.node (.whole 1)).toValue)]
    let byLocator := call ⟨false, false⟩ .getContent [("locator", .text ordersLocator)]
    Server.Reached {} Server.twoSessions ∧
      Locator.ofNode (orders.node (.whole 1)) = .ok (some ordersLocator) ∧
      (Server.twoSessions.selection.session? (.text "session-1")).isSome ∧
      (byNode.alone namingSession Server.twoSessions).map (·.1) =
        some (.ok (.success [("content", .text "session-2")])) ∧
      (byLocator.alone namingSession Server.twoSessions).map (·.1) =
        some (.ok (.success [("content", .text "session-1")])) ∧
      ¬ Program.Agree Server.twoSessions byNode byLocator := by
  intro byNode byLocator
  let first := Server.sessionOf 0 "session-1"
  let second := Server.sessionOf 1 "session-2"
  have connected : Server.twoSessions.selection.session? (.text "session-1") = some first := by
    decide +kernel
  have selected : Server.twoSessions.selection.selectedHandle = some second := by decide +kernel
  refine ⟨Server.reached_twoSessions, ofNode_orders, by decide +kernel, by decide +kernel,
    by decide +kernel, ?_⟩
  exact not_agree_of_apart (parse_locator (l := orders) trivial ofNode_orders) connected selected
    (by decide) (by decide)

end Tools

end ImageBrowser
