import ImageBrowser.Proofs.Programs.Schedule
import ImageBrowser.Proofs.Sessions.Aside
import ImageBrowser.Proofs.Sessions.Upkeep

/-!
Which sessions there are. Handles and metadata belong in two tables that have the same ids, and the
selected id is one of these. However many callers change the sessions at once, and whatever they and
the listeners who are told of it do next, the state is one that two such tables have come to.
-/

namespace ImageBrowser

namespace Table

variable {κ ν μ : Type}

def mapValues (f : ν → μ) (t : Table κ ν) : Table κ μ := ⟨t.entries.map fun e => (e.1, f e.2)⟩

variable [DecidableEq κ]

theorem find?_mapValues (f : ν → μ) (t : Table κ ν) (k : κ) :
    (t.mapValues f).find? k = (t.find? k).map f := by
  obtain ⟨entries⟩ := t
  induction entries with
  | nil => rfl
  | cons e entries ih =>
    obtain ⟨k', v⟩ := e
    by_cases same : k = k'
    · simp [mapValues, find?, same]
    · have other : (k == k') = false := by simpa using same
      simpa [mapValues, find?, List.lookup_cons, other] using ih

theorem contains_mapValues (f : ν → μ) (t : Table κ ν) (k : κ) :
    (t.mapValues f).contains k = t.contains k := by
  simp [contains, find?_mapValues]

theorem insert_mapValues (f : ν → μ) (t : Table κ ν) (k : κ) (v : ν) :
    (t.insert k v).mapValues f = (t.mapValues f).insert k (f v) := by
  unfold insert
  rw [contains_mapValues]
  split
  · simp only [mapValues, List.map_map, Table.mk.injEq]
    refine List.map_congr_left fun e _ => ?_
    simp only [Function.comp_apply]
    split <;> rfl
  · simp [mapValues]

theorem erase_mapValues (f : ν → μ) (t : Table κ ν) (k : κ) :
    (t.erase k).mapValues f = (t.mapValues f).erase k := by
  simp [mapValues, erase, List.filter_map, Function.comp_def]

theorem contains_iff_mem_keys {t : Table κ ν} {k : κ} : t.contains k ↔ k ∈ t.keys := by
  simp only [contains, find?, keys, List.lookup_isSome_iff, List.mem_map, beq_iff_eq]
  constructor
  · rintro ⟨e, mem, same⟩
    exact ⟨e, mem, same.symm⟩
  · rintro ⟨e, mem, same⟩
    exact ⟨e, mem, same.symm⟩

theorem keys_insert (t : Table κ ν) (k : κ) (v : ν) :
    (t.insert k v).keys = if t.contains k then t.keys else t.keys ++ [k] := by
  unfold insert
  split
  · simp only [keys, List.map_map]
    refine List.map_congr_left fun e _ => ?_
    simp only [Function.comp_apply]
    split <;> rfl
  · simp [keys]

theorem keys_erase (t : Table κ ν) (k : κ) : (t.erase k).keys = t.keys.filter (· ≠ k) := by
  simp [keys, erase, List.filter_map, Function.comp_def]

theorem contains_insert (t : Table κ ν) (k k' : κ) (v : ν) :
    (t.insert k v).contains k' = (decide (k' = k) || t.contains k') := by
  unfold contains
  rw [find?_insert]
  split <;> simp [*]

theorem nodup_keys_insert {t : Table κ ν} {k : κ} {v : ν} (once : t.keys.Nodup) :
    (t.insert k v).keys.Nodup := by
  rw [keys_insert]
  split
  · exact once
  · next absent =>
    rw [contains_iff_mem_keys] at absent
    exact List.nodup_append.mpr ⟨once, List.nodup_singleton k, by
      rintro a mem b single rfl
      exact absent (List.mem_singleton.mp single ▸ mem)⟩

end Table

theorem Value.eq_undefined_of_canonical {v : Value} (same : v.canonical = .fraction .undefined) :
    v = .fraction .undefined := by
  cases v with
  | fraction x =>
    simp only [Value.canonical] at same
    split at same
    · contradiction
    · exact same
  | _ => simp [Value.canonical] at same

/-- A session that is added gets an id that equals itself. -/
def Action.names : Action → Bool
  | .step (.openSession _ id _) => id.equals id
  | .step (.adopt h _) => h.sessionId.equals h.sessionId
  | _ => true

/-- The handles and the metadata in tables of their own, and the selected id. -/
structure Ledger where
  sessions : Table Value Handle := .empty
  metadata : Table Value Value := .empty
  selected : Option Value := none
  deriving DecidableEq

namespace Ledger

def contains (l : Ledger) (id : Value) : Bool := l.sessions.contains id.canonical

def session? (l : Ledger) (id : Value) : Option Handle := l.sessions.find? id.canonical

def selectedSession (l : Ledger) : Option Handle := l.selected.bind l.session?

def isSelected (l : Ledger) (id : Value) : Bool := (l.selected.getD .null).equals id

def register (l : Ledger) (h : Handle) (metadata : Value) : Ledger :=
  { l with
    sessions := l.sessions.insert h.sessionId.canonical h
    metadata := l.metadata.insert h.sessionId.canonical
      (if metadata.isTruthy then metadata else Selection.emptyMetadata) }

def remove (l : Ledger) (id : Value) : Ledger :=
  if l.contains id then
    { sessions := l.sessions.erase id.canonical
      metadata := l.metadata.erase id.canonical
      selected := if l.isSelected id then none else l.selected }
  else l

def select (l : Ledger) (id : Option Value) : Ledger :=
  if (id.map l.contains).getD true then { l with selected := id } else l

def after (l : Ledger) (number : Nat) : Action → Ledger
  | .step (.openSession c id metadata) => l.register ⟨number, id, c⟩ metadata
  | .step (.adopt h metadata) => l.register h metadata
  | .step (.removeSession id) => l.remove id
  | .step .clearSessions => {}
  | .step (.selectSession id) => l.select id
  | _ => l

def follow (l : Ledger) : World → List Event → Ledger
  | _, [] => l
  | w, e :: history => (l.after w.nextHandle e.action).follow (w.after e.action) history

theorem follow_concat (l : Ledger) (w : World) (history : List Event) (e : Event) :
    l.follow w (history ++ [e]) =
      (l.follow w history).after (w.replay history).nextHandle e.action := by
  induction history generalizing l w with
  | nil => rfl
  | cons first history ih => exact ih _ _

/-- Each session is listed once, under an id that equals itself, with its handle and with its
metadata, and none other is selected. -/
structure Consistent (l : Ledger) : Prop where
  selected : ∀ id, l.selected = some id → l.contains id
  together : l.sessions.keys = l.metadata.keys
  once : l.sessions.keys.Nodup
  carries : ∀ e ∈ l.sessions.entries, e.1 = e.2.sessionId.canonical
  named : ∀ e ∈ l.sessions.entries, e.2.sessionId ≠ .fraction .undefined

variable {l : Ledger}

theorem consistent_empty : ({} : Ledger).Consistent where
  selected := nofun
  together := rfl
  once := List.nodup_nil
  carries := nofun
  named := nofun

theorem Consistent.selectedSession_eq_none_iff (consistent : l.Consistent) :
    l.selectedSession = none ↔ l.selected = none := by
  unfold selectedSession
  cases chosen : l.selected with
  | none => simp
  | some id =>
    have there : (l.session? id).isSome := consistent.selected id chosen
    simp [Option.isSome_iff_ne_none.mp there]

theorem Consistent.ne_undefined_of_contains (consistent : l.Consistent) {id : Value}
    (there : l.contains id) : id ≠ .fraction .undefined := by
  rintro rfl
  obtain ⟨e, mem, key⟩ := List.mem_map.mp (Table.contains_iff_mem_keys.mp there)
  have same : e.2.sessionId.canonical = .fraction .undefined :=
    (consistent.carries e mem).symm.trans key
  exact consistent.named e mem (Value.eq_undefined_of_canonical same)

theorem Consistent.register (consistent : l.Consistent) {h : Handle} (metadata : Value)
    (named : h.sessionId ≠ .fraction .undefined) : (l.register h metadata).Consistent where
  selected id chosen := by
    have before : l.sessions.contains id.canonical := consistent.selected id chosen
    simp [Ledger.contains, Ledger.register, Table.contains_insert, before]
  together := by
    have alike (k : Value) : l.metadata.contains k = l.sessions.contains k := by
      rw [Bool.eq_iff_iff, Table.contains_iff_mem_keys, Table.contains_iff_mem_keys,
        consistent.together]
    simp only [Ledger.register, Table.keys_insert, alike, consistent.together]
  once := Table.nodup_keys_insert consistent.once
  carries e mem := by
    rcases Table.mem_entries_insert mem with rfl | old
    · rfl
    · exact consistent.carries e old
  named e mem := by
    rcases Table.mem_entries_insert mem with rfl | old
    · exact named
    · exact consistent.named e old

theorem Consistent.remove (consistent : l.Consistent) (id : Value) :
    (l.remove id).Consistent := by
  unfold Ledger.remove
  split
  · next there =>
    refine ⟨?_, ?_, ?_, ?_, ?_⟩
    · intro id' chosen
      obtain ⟨other, chosen⟩ : ¬ l.isSelected id ∧ l.selected = some id' := by simpa using chosen
      have before := consistent.selected id' chosen
      have apart : id'.canonical ≠ id.canonical := by
        intro same
        refine other ?_
        simp [isSelected, chosen, Value.equals, Value.same, same,
          consistent.ne_undefined_of_contains before]
      simpa [Ledger.contains, Table.contains, Table.find?_erase, apart] using before
    · simp only [Table.keys_erase, consistent.together]
    · simpa only [Table.keys_erase] using consistent.once.filter _
    · exact fun e mem => consistent.carries e (List.mem_of_mem_filter mem)
    · exact fun e mem => consistent.named e (List.mem_of_mem_filter mem)
  · exact consistent

theorem Consistent.select (consistent : l.Consistent) (id : Option Value) :
    (l.select id).Consistent := by
  unfold Ledger.select
  split
  · next there =>
    refine ⟨?_, consistent.together, consistent.once, consistent.carries, consistent.named⟩
    rintro id' rfl
    exact there
  · exact consistent

theorem Consistent.after (consistent : l.Consistent) (number : Nat) {a : Action} (names : a.names) :
    (l.after number a).Consistent := by
  have defined {id : Value} (equal : id.equals id) : id ≠ .fraction .undefined := by
    rintro rfl
    exact absurd equal (by decide)
  cases a with
  | step s =>
    cases s
    case openSession c id metadata => exact consistent.register metadata (defined names)
    case adopt h metadata => exact consistent.register metadata (defined names)
    case removeSession id => exact consistent.remove id
    case clearSessions => exact consistent_empty
    case selectSession id => exact consistent.select id
    all_goals exact consistent
  | _ => exact consistent

end Ledger

def Selection.ledger (s : Selection) : Ledger where
  sessions := s.enrolled.mapValues (·.handle)
  metadata := s.enrolled.mapValues (·.metadata)
  selected := s.selected

namespace Selection

theorem session?_ledger (s : Selection) (id : Value) : s.ledger.session? id = s.session? id :=
  Table.find?_mapValues _ _ _

theorem selectedSession_ledger (s : Selection) : s.ledger.selectedSession = s.selectedHandle := by
  unfold Ledger.selectedSession selectedHandle
  rw [funext s.session?_ledger]
  rfl

theorem contains_ledger (s : Selection) (id : Value) : s.ledger.contains id = s.contains id :=
  Table.contains_mapValues _ _ _

theorem isSome_session? (s : Selection) (id : Value) :
    (s.session? id).isSome = s.contains id := by
  simp [session?, find?, contains, Table.contains]

theorem ledger_register (s : Selection) (h : Handle) (metadata : Value) :
    (s.register h metadata).ledger = s.ledger.register h metadata := by
  simp [ledger, register, Ledger.register, Table.insert_mapValues]

theorem ledger_remove (s : Selection) (id : Value) :
    (s.remove id).2.ledger = s.ledger.remove id := by
  have there := s.isSome_session? id
  unfold remove Ledger.remove
  rw [contains_ledger, ← there]
  cases s.session? id with
  | none => rfl
  | some h =>
    simp [ledger, Table.erase_mapValues]
    rfl

theorem ledger_select (s : Selection) (id : Option Value) :
    (s.select id).2.ledger = s.ledger.select id := by
  unfold select Ledger.select
  rw [funext s.contains_ledger]
  split <;> rfl

end Selection

theorem World.ledger_after (w : World) (a : Action) :
    (w.after a).selection.ledger = w.selection.ledger.after w.nextHandle a := by
  cases a with
  | step s =>
    cases s
    case openSession c id metadata => exact Selection.ledger_register _ _ _
    case adopt h metadata => exact Selection.ledger_register _ _ _
    case removeSession id => exact Selection.ledger_remove _ _
    case clearSessions => rfl
    case selectSession id => exact Selection.ledger_select _ _
    all_goals rfl
  | _ => rfl

def Program.FailsAtOnce {α : Type} : Program α → World → Fault → Prop
  | .act (.step s) k, w, f => (w.step s).2 = w ∧ k (w.step s).1 = .fail f
  | _, _, _ => False

namespace Sessions

variable {w : World} {id : Value}

theorem remove_failsAtOnce (key : id.isKey) (absent : ¬ w.selection.contains id) :
    (SessionChange.remove id).run.FailsAtOnce w (.missingKey id) := by
  have unknown : w.selection.session? id = none := by
    rwa [← Option.not_isSome_iff_eq_none, Selection.isSome_session?]
  have kept : w.selection.remove id = (none, w.selection) := by simp [Selection.remove, unknown]
  show (Program.ofExcept id.asKey >>= _ >>= _).FailsAtOnce _ _
  rw [Value.asKey_of_isKey key]
  refine ⟨?_, ?_⟩
  · simp [World.step, kept]
  · simp only [World.step, kept]
    rfl

theorem select_failsAtOnce (key : id.isKey) (proper : id ≠ .null)
    (absent : ¬ w.selection.contains id) :
    (SessionChange.select id).run.FailsAtOnce w (.missingKey id) := by
  have kept : w.selection.select (optional id) = (none, w.selection) := by
    simp [Selection.select, optional, proper, absent]
  show (Program.ofExcept id.asKey >>= _).FailsAtOnce _ _
  rw [Value.asKey_of_isKey key]
  refine ⟨?_, ?_⟩
  · simp [World.step, kept]
  · simp only [World.step, kept]
    rfl

end Sessions

namespace SessionChange

def Names : SessionChange → Prop
  | add _ _ id => id.equals id
  | adopt h _ => h.sessionId.equals h.sessionId
  | _ => True

def IsRunOf (changes : SessionChange → Prop) (p : Program Unit) : Prop :=
  ∃ c, changes c ∧ c.run = p

def naming : Discipline (List Doing) :=
  .diary fun done a => (∀ id, ⟨.step .freshId, id⟩ ∈ done → id.equals id) → a.names

theorem obeys_naming {c : SessionChange} (names : c.Names) :
    c.run.Obeys naming [] fun _ _ => True := by
  have named {p : Program Unit} (only : p.Only Action.names) : p.Obeys naming [] fun _ _ => True :=
    only.keeps (fun takes _ _ => takes) (fun _ _ _ => trivial) [] trivial
  have apart (a : Action) (aside : a.isAside) : a.names := by
    cases a with
    | step s => cases s <;> first | rfl | cases aside
    | _ => rfl
  cases c with
  | add c metadata id =>
    show (Sessions.add c metadata id >>= _).Obeys _ _ _
    rw [Program.obeys_bind]
    unfold Sessions.add
    dsimp only
    split
    · by_cases key : id.isKey
      · rw [Value.asKey_of_isKey key]
        exact ⟨fun _ => names, fun _ => trivial⟩
      · rw [Value.asKey, if_neg key]
        trivial
    · refine ⟨fun _ => rfl, fun fresh => ⟨fun proper => ?_, fun _ => trivial⟩⟩
      exact proper fresh (List.mem_singleton.mpr rfl)
  | adopt h metadata =>
    refine named (.bind (.bind (.ofExcept _) fun _ => ?_) fun _ => .done ())
    exact .bind (Program.only_act names .done) fun _ => .done _
  | remove id =>
    exact named (.bind (Sessions.only_remove id (fun _ => rfl) apart) fun _ => .done ())
  | select id => exact named ((Sessions.aside_select id).mono apart)
  | clear => exact named (Sessions.only_clear rfl apart)

end SessionChange

namespace System

variable {w : World} {s : System Unit}

theorem Reachable.equals_freshId {α : Type} {starts : Program α → Prop} {s : System α}
    (reach : Reachable starts w s) {i : Nat} {id : Value}
    (mem : ⟨i, .step .freshId, id⟩ ∈ s.history) : id.equals id := by
  obtain ⟨before, after, split⟩ := List.mem_iff_append.mp mem
  obtain ⟨_, _, _, _, _, _, answers⟩ := reach.answered_event split
  cases answers
  simp [Value.equals, Value.same]

theorem Reachable.consistent (blank : w.selection = {})
    (reach : Reachable (SessionChange.IsRunOf SessionChange.Names) w s) :
    (Ledger.follow {} w s.history).Consistent ∧
      s.world.selection.ledger = Ledger.follow {} w s.history := by
  induction reach with
  | init => exact ⟨Ledger.consistent_empty, congrArg Selection.ledger blank⟩
  | start _ _ ih => exact ih
  | @act s i a k r v reach caller answers ih =>
    obtain ⟨consistent, same⟩ := ih
    have begins (p : Program Unit) (run : SessionChange.IsRunOf SessionChange.Names p) :
        p.Obeys SessionChange.naming [] fun _ _ => True := by
      obtain ⟨c, names, rfl⟩ := run
      exact SessionChange.obeys_naming names
    have names : a.names :=
      (reach.obeys begins caller).1 fun id mem => reach.equals_freshId (mem_diary.mp mem)
    rw [Ledger.follow_concat, ← reach.world_eq, answers.after_eq, World.ledger_after, same]
    exact ⟨consistent.after _ names, rfl⟩

end System

namespace Sessions

/-- However sessions are added, adopted, selected, removed and cleared by any number of callers at
once, among them listeners who are being told, the selected session is one of those that are there,
and handles and metadata are kept of the same sessions, once each. To select or to remove another
one fails, changes nothing and is told nobody. -/
theorem registry_stays_consistent {w : World} {s : System Unit} (blank : w.selection = {})
    (reach : System.Reachable (SessionChange.IsRunOf SessionChange.Names) w s) :
    let l := Ledger.follow {} w s.history
    s.world.selection.ledger = l ∧ l.Consistent ∧
      (s.world.selection.selectedHandle = none ↔ s.world.selection.selected = none) ∧
      ∀ id, id.isKey → ¬ l.contains id →
        (SessionChange.remove id).run.FailsAtOnce s.world (.missingKey id) ∧
        (id ≠ .null → (SessionChange.select id).run.FailsAtOnce s.world (.missingKey id)) := by
  intro l
  obtain ⟨consistent, same⟩ := reach.consistent blank
  refine ⟨same, consistent, ?_, ?_⟩
  · rw [← Selection.selectedSession_ledger]
    have listed : s.world.selection.ledger.Consistent := same ▸ consistent
    exact listed.selectedSession_eq_none_iff
  · intro id key absent
    rw [show l.contains id = s.world.selection.contains id by
      rw [← Selection.contains_ledger, same]] at absent
    exact ⟨remove_failsAtOnce key absent, fun proper => select_failsAtOnce key proper absent⟩

def listened : World := { selectionListeners := ({} : Subscribers Listener).subscribe (.outside 0) }

def listenersReturn : Outside
  | .tell _ _ => some (.ok ())
  | _ => none

def selectedAndRemoved (schedule : List Nat) : System Unit :=
  let id : Value := .text "first"
  System.scheduled listenersReturn listened
    [(SessionChange.add ⟨id⟩ .null id).run, (SessionChange.select id).run,
      (SessionChange.remove id).run] schedule

theorem reachable_selectedAndRemoved (schedule : List Nat) :
    System.Reachable (SessionChange.IsRunOf SessionChange.Names) listened
      (selectedAndRemoved schedule) := by
  refine System.reachable_scheduled _ _ ?_
  intro p mem
  simp only [List.mem_cons, List.not_mem_nil, or_false] at mem
  obtain rfl | rfl | rfl := mem
  · have named : (Value.text "first").equals (.text "first") := by decide
    exact ⟨.add _ _ _, named, rfl⟩
  · exact ⟨.select _, trivial, rfl⟩
  · exact ⟨.remove _, trivial, rfl⟩

theorem registry_consistent_while_told :
    let s := selectedAndRemoved [0, 1, 1, 2]
    let id : Value := .text "first"
    System.Reachable (SessionChange.IsRunOf SessionChange.Names) listened s ∧
      listened.selection = {} ∧ (selectedAndRemoved [0, 1, 1]).world.selection.selected = some id ∧
      s.world.selection.ledger = {} ∧ s.world.selection.ledger.Consistent ∧
      (SessionChange.remove id).run.FailsAtOnce s.world (.missingKey id) := by
  intro s id
  have blank : listened.selection = {} := rfl
  have reach := reachable_selectedAndRemoved [0, 1, 1, 2]
  obtain ⟨same, consistent, _, absent⟩ := registry_stays_consistent blank reach
  have gone : s.world.selection.ledger = {} := by decide +kernel
  have unlisted : ¬ (Ledger.follow {} listened s.history).contains id := by
    rw [← same, gone]
    decide
  exact ⟨reach, blank, by decide +kernel, gone, same ▸ consistent, (absent id rfl unlisted).1⟩

end Sessions

end ImageBrowser
