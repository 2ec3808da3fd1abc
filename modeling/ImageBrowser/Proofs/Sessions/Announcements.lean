import ImageBrowser.Proofs.Programs.Traces
import ImageBrowser.Proofs.Sessions.Registry

/-!
Who hears of a change of the selection. A change is made in one step and told in later ones, with
others at work in between; whether there was a change is known from the answer to the step. Main
statement: when all is over, a listener has been told of every change by the one who made it, once.
-/

namespace ImageBrowser

open Program (Does)

namespace Doing

def change? : Doing → Option (Option Value)
  | ⟨.step (.removeSession _), some (_, true)⟩ => some none
  | ⟨.step .clearSessions, true⟩ => some none
  | ⟨.step (.selectSession id), some true⟩ => some id
  | _ => none

def notice? (n : Nat) : Doing → Option (Option Value)
  | ⟨.tell m (.selectionChanged id), _⟩ => if m = n then some id else none
  | _ => none

/-- Whoever is told comes back, and a listener is called that often with all others. -/
def Regular (n times : Nat) : Doing → Prop
  | ⟨.tell _ _, answer⟩ => answer = .ok ()
  | ⟨.step .beginSelectionNotice, called⟩ => called.count (.outside n) = times
  | _ => True

end Doing

def Action.isQuiet : Action → Bool
  | .tell _ (.selectionChanged _) => false
  | .step (.removeSession _) | .step .clearSessions | .step (.selectSession _) => false
  | _ => true

namespace Program

variable {α β : Type} {n times : Nat} {told told' : List (Option Value)}

def Tells (n times : Nat) (told : List (Option Value)) (p : Program α) : Prop :=
  ∀ ds o, p.Does ds o → (∀ d ∈ ds, Doing.Regular n times d) →
    (∃ a, o = .ok a) ∧ ds.filterMap (Doing.notice? n) = told ∧ ds.filterMap Doing.change? = []

namespace Tells

theorem done (a : α) : (Program.done a).Tells n times [] := by
  rintro ds o does -
  obtain ⟨rfl, rfl⟩ := does_done.mp does
  exact ⟨⟨a, rfl⟩, rfl, rfl⟩

theorem bind {p : Program α} {f : α → Program β} (first : p.Tells n times told)
    (next : ∀ a, (f a).Tells n times told') : (p >>= f).Tells n times (told ++ told') := by
  intro ds o does regular
  obtain ⟨a, ds₁, ds₂, rfl, ends, goes⟩ | ⟨e, fails, rfl⟩ := does.of_bind
  · obtain ⟨before, after⟩ := List.forall_mem_append.mp regular
    obtain ⟨_, told₁, still₁⟩ := first ds₁ _ ends before
    obtain ⟨result, told₂, still₂⟩ := next a ds₂ o goes after
    refine ⟨result, ?_, ?_⟩
    · rw [List.filterMap_append, told₁, told₂]
    · rw [List.filterMap_append, still₁, still₂, List.nil_append]
  · obtain ⟨⟨a, result⟩, _⟩ := first ds _ fails regular
    cases result

theorem map {p : Program α} (tells : p.Tells n times told) (b : β) :
    (p >>= fun _ => Program.done b).Tells n times told := by
  rw [← List.append_nil told]
  exact .bind tells fun _ => .done b

theorem ensure {p : Program α} {cleanup : Program Unit} (first : p.Tells n times told)
    (last : cleanup.Tells n times []) : (p.ensure cleanup).Tells n times told := by
  intro ds o does regular
  obtain ⟨o', c, ds₁, ds₂, rfl, ends, cleans, finished⟩ := does.of_ensure
  obtain ⟨before, after⟩ := List.forall_mem_append.mp regular
  obtain ⟨result, told₁, still₁⟩ := first ds₁ _ ends before
  obtain ⟨⟨_, rfl⟩, told₂, still₂⟩ := last ds₂ _ cleans after
  obtain ⟨_, rfl⟩ | ⟨e, ⟨⟩, _⟩ := finished
  refine ⟨result, ?_, ?_⟩
  · rw [List.filterMap_append, told₁, told₂, List.append_nil]
  · rw [List.filterMap_append, still₁, still₂, List.nil_append]

theorem act {a : Action} {k : a.Reply → Program α} (heard : List (Option Value))
    (first : ∀ r : a.Reply, Doing.Regular n times ⟨a, r⟩ →
      (Doing.notice? n ⟨a, r⟩).toList = heard ∧ Doing.change? ⟨a, r⟩ = none)
    (next : ∀ r, Doing.Regular n times ⟨a, r⟩ → (k r).Tells n times told) :
    (Program.act a k).Tells n times (heard ++ told) := by
  intro ds o does regular
  obtain ⟨r, rest, rfl, goes⟩ := does_act.mp does
  obtain ⟨now, after⟩ := List.forall_mem_cons.mp regular
  obtain ⟨heard₁, still₁⟩ := first r now
  obtain ⟨result, told₂, still₂⟩ := next r now rest o goes after
  refine ⟨result, ?_, ?_⟩
  · rw [← List.singleton_append, List.filterMap_append, told₂, ← heard₁]
    cases found : Doing.notice? n ⟨a, r⟩ <;> simp [found]
  · rw [List.filterMap_cons_none still₁, still₂]

theorem quiet {a : Action} {k : a.Reply → Program α} (still : a.isQuiet)
    (next : ∀ r, Doing.Regular n times ⟨a, r⟩ → (k r).Tells n times told) :
    (Program.act a k).Tells n times told := by
  refine act [] (fun r _ => ?_) next
  cases a with
  | step s => cases s <;> first | exact ⟨rfl, rfl⟩ | cases still
  | tell m message =>
    cases message with
    | selectionChanged id => cases still
    | treeChanged => exact ⟨rfl, rfl⟩
  | _ => exact ⟨rfl, rfl⟩

theorem tell (m : Nat) (message : Message) :
    (Program.tell m message).Tells n times
      ((Doing.notice? n ⟨.tell m message, .ok ()⟩).toList) := by
  rw [← List.append_nil (Option.toList _)]
  refine act _ (fun r regular => ?_) fun r regular => ?_
  · cases (regular : r = .ok ())
    exact ⟨rfl, rfl⟩
  · cases (regular : r = .ok ())
    exact done ()

end Tells

end Program

open Program

namespace Tree

variable {n times : Nat}

theorem refresh_tells : refresh.Tells n times [] := by
  have cleared : clearCache.Tells n times [] :=
    .quiet rfl fun _ _ => .quiet rfl fun _ _ => .quiet rfl fun _ _ => .done ()
  have told (ls : List Nat) :
      (tellAll (fun l => Program.tell l .treeChanged) ls).Tells n times [] := by
    induction ls with
    | nil => exact .done ()
    | cons l ls ih => exact .bind (.tell l .treeChanged) fun _ => ih
  refine .bind cleared fun _ => .quiet rfl fun listeners _ => ?_
  exact .ensure (told listeners) (.quiet rfl fun _ _ => .done ())

end Tree

namespace Sessions

variable {n times : Nat} {id : Option Value}

theorem tellAll_tells (id : Option Value) (ls : List Listener) :
    (tellAll (tellListener id) ls).Tells n times (List.replicate (ls.count (.outside n)) id) := by
  induction ls with
  | nil => exact .done ()
  | cons l ls ih =>
    have each : (tellListener id l).Tells n times (if l = .outside n then [id] else []) := by
      cases l with
      | tree => exact Tree.refresh_tells
      | outside m =>
        have told : (tellListener id (.outside m)).Tells n times _ := .tell m (.selectionChanged id)
        by_cases same : m = n <;> simpa [Doing.notice?, same] using told
    have counted : List.replicate ((l :: ls).count (.outside n)) id =
        (if l = .outside n then [id] else []) ++ List.replicate (ls.count (.outside n)) id := by
      by_cases same : l = .outside n
      · simp [same, List.replicate_succ]
      · simp [same]
    rw [counted]
    exact .bind each fun _ => ih

theorem announce_tells : (announce id).Tells n times (List.replicate times id) := by
  refine .quiet rfl fun listeners regular => ?_
  have called : listeners.count (.outside n) = times := regular
  rw [← called]
  exact .ensure (tellAll_tells id listeners) (.quiet rfl fun _ _ => .done ())

end Sessions

/-- No change is made and a listener is told of none, or one change is made and then the listener is
told of it, as often as it is called. -/
inductive Doing.Announced (n times : Nat) : List Doing → Prop
  | quiet {ds : List Doing} (still : ds.filterMap change? = [])
    (silent : ds.filterMap (notice? n) = []) : Announced n times ds
  | change {first rest : List Doing} {d : Doing} {id : Option Value} (change : change? d = some id)
    (mute : notice? n d = none) (before : first.filterMap change? = [])
    (unheard : first.filterMap (notice? n) = []) (after : rest.filterMap change? = [])
    (told : rest.filterMap (notice? n) = List.replicate times id) :
    Announced n times (first ++ d :: rest)

theorem Doing.Announced.notices_eq {n : Nat} {ds : List Doing} (announced : Announced n 1 ds) :
    ds.filterMap (notice? n) = ds.filterMap change? := by
  cases announced with
  | quiet still silent => rw [silent, still]
  | change change mute before unheard after told =>
    rw [List.filterMap_append, List.filterMap_append, List.filterMap_cons_none mute,
      List.filterMap_cons_some change, before, unheard, after, told]
    rfl

namespace Program

variable {α β : Type} {n times : Nat}

def Announces (n times : Nat) (p : Program α) : Prop :=
  ∀ ds o, p.Does ds o → (∀ d ∈ ds, Doing.Regular n times d) → Doing.Announced n times ds

namespace Announces

theorem done (a : α) : (Program.done a).Announces n times := by
  rintro ds o does -
  obtain ⟨rfl, _⟩ := does_done.mp does
  exact .quiet rfl rfl

theorem fail (f : Fault) : (Program.fail f : Program α).Announces n times := by
  rintro ds o does -
  obtain ⟨rfl, _⟩ := does_fail.mp does
  exact .quiet rfl rfl

theorem map {p : Program α} (announces : p.Announces n times) (b : β) :
    (p >>= fun _ => Program.done b).Announces n times := by
  intro ds o does regular
  obtain ⟨_, first, rest, rfl, ends, goes⟩ | ⟨e, fails, rfl⟩ := does.of_bind
  · obtain ⟨rfl, _⟩ := does_done.mp goes
    rw [List.append_nil] at regular ⊢
    exact announces first _ ends regular
  · exact announces ds _ fails regular

theorem act {a : Action} {k : a.Reply → Program α} (silent : ∀ r, Doing.notice? n ⟨a, r⟩ = none)
    (changed : ∀ r id, Doing.change? ⟨a, r⟩ = some id →
      (k r).Tells n times (List.replicate times id))
    (unchanged : ∀ r, Doing.change? ⟨a, r⟩ = none → (k r).Announces n times) :
    (Program.act a k).Announces n times := by
  intro ds o does regular
  obtain ⟨r, rest, rfl, goes⟩ := does_act.mp does
  have after := (List.forall_mem_cons.mp regular).2
  cases found : Doing.change? ⟨a, r⟩ with
  | none =>
    cases unchanged r found rest o goes after with
    | quiet still unheard =>
      exact .quiet ((List.filterMap_cons_none found).trans still)
        ((List.filterMap_cons_none (silent r)).trans unheard)
    | @change first rest d id change mute before unheard still told =>
      exact @Doing.Announced.change n times (⟨a, r⟩ :: first) rest d id change mute
        ((List.filterMap_cons_none found).trans before)
        ((List.filterMap_cons_none (silent r)).trans unheard) still told
  | some id =>
    obtain ⟨_, told, still⟩ := changed r id found rest o goes after
    exact @Doing.Announced.change n times [] _ _ _ found (silent r) rfl rfl still told

end Announces

end Program

namespace SessionChange

variable {n times : Nat}

def Selects : SessionChange → Prop
  | remove _ | select _ | clear => True
  | _ => False

theorem announces_run {c : SessionChange} (selects : c.Selects) : c.run.Announces n times := by
  cases c with
  | remove id =>
    show (Sessions.remove id >>= fun _ => Program.done ()).Announces n times
    refine .map ?_ ()
    show (Program.ofExcept id.asKey >>= _).Announces n times
    cases id.asKey with
    | error e => exact .fail e
    | ok id =>
      refine .act (fun _ => rfl) ?_ ?_
      · rintro (_ | ⟨h, _ | _⟩) id' found
        · cases found
        · cases found
        · cases found
          exact Sessions.announce_tells.map h
      · rintro (_ | ⟨h, _ | _⟩) found
        · exact .fail _
        · exact .done h
        · cases found
  | select id =>
    show (Program.ofExcept id.asKey >>= _).Announces n times
    cases id.asKey with
    | error e => exact .fail e
    | ok id =>
      refine .act (fun _ => rfl) ?_ ?_
      · rintro (_ | _ | _) id' found
        · cases found
        · cases found
        · cases found
          exact Sessions.announce_tells
      · rintro (_ | _ | _) found
        · exact .fail _
        · exact .done ()
        · cases found
  | clear =>
    refine .act (fun _ => rfl) ?_ ?_
    · rintro (_ | _) id found
      · cases found
      · cases found
        exact Sessions.announce_tells
    · rintro (_ | _) found
      · exact .done ()
      · cases found
  | _ => exact selects.elim

end SessionChange

theorem Value.eq_null_of_canonical {v : Value} (same : v.canonical = .null) : v = .null := by
  cases v with
  | null => rfl
  | fraction x =>
    simp only [Value.canonical] at same
    split at same <;> contradiction
  | _ => simp [Value.canonical] at same

/-! What a history changes and what it tells -/

/-- Ids that compare equal are the same, and so is nothing the same as nothing. -/
def sameId (a b : Option Value) : Bool := a.map Value.canonical = b.map Value.canonical

def Selection.changed? (s t : Selection) : Option (Option Value) :=
  if sameId s.selected t.selected then none else some t.selected

/-- Who changed the selection, and to what, in order. -/
def changesOf : World → List Event → List (Nat × Option Value)
  | _, [] => []
  | w, e :: history =>
    ((w.selection.changed? (w.after e.action).selection).map (e.caller, ·)).toList ++
      changesOf (w.after e.action) history

/-- Who told a listener of a change of the selection, and of which, in order. -/
def noticesOf (n : Nat) (history : List Event) : List (Nat × Option Value) :=
  history.filterMap fun e => (Doing.notice? n ⟨e.action, e.reply⟩).map (e.caller, ·)

theorem changesOf_append (w : World) (history history' : List Event) :
    changesOf w (history ++ history') =
      changesOf w history ++ changesOf (w.replay history) history' := by
  induction history generalizing w with
  | nil => rfl
  | cons first history ih =>
    show _ ++ changesOf (w.after first.action) (history ++ history') =
      (_ ++ changesOf _ history) ++ _
    rw [ih, List.append_assoc]
    rfl

namespace Selection

/-- The sessions are listed as they should be, and none goes by the id of no session. -/
structure Orderly (s : Selection) : Prop where
  consistent : s.ledger.Consistent
  proper : ∀ id, s.contains id → id ≠ .null

variable {s : Selection}

namespace Orderly

theorem selected (orderly : s.Orderly) {id : Value} (chosen : s.selected = some id) :
    s.contains id := by
  rw [← contains_ledger]
  exact orderly.consistent.selected id chosen

theorem canonical_ne_null (orderly : s.Orderly) {id : Value} (there : s.contains id) :
    id.canonical ≠ .null :=
  fun same => orderly.proper id there (Value.eq_null_of_canonical same)

theorem isSelected_iff (orderly : s.Orderly) {id : Value} (there : s.contains id) :
    s.isSelected id ↔ sameId s.selected (some id) := by
  unfold isSelected sameId
  cases chosen : s.selected with
  | none =>
    have proper := orderly.canonical_ne_null there
    simp [Value.equals, Value.same, Value.canonical, proper.symm]
  | some id' =>
    have known : s.ledger.contains id' := orderly.consistent.selected id' chosen
    have defined := orderly.consistent.ne_undefined_of_contains known
    simp [Value.equals, Value.same, defined]

theorem register (orderly : s.Orderly) {h : Handle} (metadata : Value)
    (proper : h.sessionId ≠ .null) (defined : h.sessionId ≠ .fraction .undefined) :
    (s.register h metadata).Orderly := by
  constructor
  · rw [ledger_register]
    exact orderly.consistent.register metadata defined
  · rintro id there rfl
    obtain same | before : Value.null = h.sessionId.canonical ∨ s.contains .null := by
      simpa [Selection.register, contains, Table.contains_insert, Value.canonical] using there
    · exact proper (Value.eq_null_of_canonical same.symm)
    · exact orderly.proper .null before rfl

theorem of_subset {t : Selection} (orderly : s.Orderly) (consistent : t.ledger.Consistent)
    (fewer : t.enrolled.entries ⊆ s.enrolled.entries) : t.Orderly := by
  refine ⟨consistent, fun id there => orderly.proper id ?_⟩
  have among := Table.contains_iff_mem_keys.mp there
  exact Table.contains_iff_mem_keys.mpr (List.map_subset _ fewer among)

theorem remove (orderly : s.Orderly) (id : Value) : (s.remove id).2.Orderly := by
  apply orderly.of_subset _ (Sessions.entries_remove_subset s id)
  rw [ledger_remove]
  exact orderly.consistent.remove id

theorem select (orderly : s.Orderly) (id : Option Value) : (s.select id).2.Orderly := by
  apply orderly.of_subset _ (Sessions.entries_select_subset s id)
  rw [ledger_select]
  exact orderly.consistent.select id

end Orderly

theorem orderly_empty : ({} : Selection).Orderly :=
  ⟨Ledger.consistent_empty, fun _ there => by cases there⟩

theorem sameId_none_iff {id : Option Value} : sameId id none ↔ id = none := by
  simp [sameId]

theorem Orderly.isSelected_getD_iff (orderly : s.Orderly) {id : Option Value}
    (there : (id.map s.contains).getD true) :
    s.isSelected (id.getD .null) ↔ sameId s.selected id := by
  cases id with
  | some id => exact orderly.isSelected_iff there
  | none =>
    rw [sameId_none_iff]
    unfold isSelected
    cases chosen : s.selected with
    | none => simp [Value.equals, Value.same]
    | some id =>
      have proper := orderly.canonical_ne_null (orderly.selected chosen)
      simp [Value.equals, Value.same, Value.canonical, proper]

theorem changed?_of_sameId {t : Selection} (same : sameId s.selected t.selected) :
    s.changed? t = none := if_pos same

theorem changed?_of_not_sameId {t : Selection} (other : ¬ sameId s.selected t.selected) :
    s.changed? t = some t.selected := if_neg other

theorem sameId_rfl {id : Option Value} : sameId id id := decide_eq_true rfl

theorem Orderly.change?_remove (orderly : s.Orderly) (id : Value) :
    Doing.change? ⟨.step (.removeSession id), (s.remove id).1⟩ = s.changed? (s.remove id).2 := by
  unfold Selection.remove
  cases found : s.session? id with
  | none => exact (changed?_of_sameId sameId_rfl).symm
  | some h =>
    have there : s.contains id := by rw [← isSome_session?, found]; rfl
    cases chosen : s.isSelected id with
    | false => exact (changed?_of_sameId sameId_rfl).symm
    | true =>
      have was := (orderly.isSelected_iff there).mp chosen
      have other : ¬ sameId s.selected none := by
        intro before
        rw [sameId_none_iff.mp before] at was
        cases was
      exact (changed?_of_not_sameId (t := ⟨s.enrolled.erase id.canonical, none⟩) other).symm

theorem Orderly.change?_select (orderly : s.Orderly) (id : Option Value) :
    Doing.change? ⟨.step (.selectSession id), (s.select id).1⟩ = s.changed? (s.select id).2 := by
  unfold Selection.select
  split
  · next there =>
    have chosen := orderly.isSelected_getD_iff there
    cases was : s.isSelected (id.getD .null) with
    | false =>
      have other : ¬ sameId s.selected id := fun same => by simp [chosen.mpr same] at was
      exact (changed?_of_not_sameId (t := { s with selected := id }) other).symm
    | true => exact (changed?_of_sameId (t := { s with selected := id }) (chosen.mp was)).symm
  · exact (changed?_of_sameId sameId_rfl).symm

theorem change?_clear :
    Doing.change? ⟨.step .clearSessions, s.clear.1⟩ = s.changed? s.clear.2 := by
  unfold Selection.clear
  cases chosen : s.selected with
  | none => exact (changed?_of_sameId (sameId_none_iff.mpr chosen)).symm
  | some id =>
    have other : ¬ sameId s.selected none := by simp [sameId_none_iff, chosen]
    exact (changed?_of_not_sameId (t := {}) other).symm

/-- The answer to a step tells whether it changes the selection. -/
theorem Orderly.change?_eq {w v : World} {a : Action} {r : a.Reply} (orderly : w.selection.Orderly)
    (answers : Answers w a r v) : Doing.change? ⟨a, r⟩ = w.selection.changed? v.selection := by
  have kept {t : Selection} (same : t.selected = w.selection.selected) :
      none = w.selection.changed? t := (changed?_of_sameId (by rw [same, sameId_rfl])).symm
  cases answers with
  | step s =>
    cases s
    case removeSession id => exact orderly.change?_remove id
    case clearSessions => exact change?_clear
    case selectSession id => exact orderly.change?_select id
    all_goals exact kept rfl
  | _ => exact kept rfl

end Selection

def Subscribers.Has {ℓ : Type} [DecidableEq ℓ] (s : Subscribers ℓ) (l : ℓ) (times : Nat) : Prop :=
  s.subscribed.count l = times ∧ l ∉ s.abandoned

def Subscribers.HasOne {ℓ : Type} [DecidableEq ℓ] (s : Subscribers ℓ) (l : ℓ) : Prop := s.Has l 1

theorem Subscribers.Has.count_alive {ℓ : Type} [DecidableEq ℓ] {s : Subscribers ℓ} {l : ℓ}
    {times : Nat} (has : s.Has l times) : s.alive.count l = times := by
  have held : s.isAlive l := by simp [isAlive, has.2]
  rw [alive, List.count_filter held, has.1]

def Action.addsNothing : Action → Bool
  | .step (.openSession _ _ _) | .step (.adopt _ _) => false
  | _ => true

theorem Action.addsNothing_of_isAside {a : Action} (apart : a.isAside) : a.addsNothing := by
  cases a with
  | step s => cases s <;> first | rfl | cases apart
  | _ => rfl

theorem SessionChange.Selects.addsNothing {c : SessionChange} (selects : c.Selects) :
    c.run.Only Action.addsNothing := by
  have apart (a : Action) : a.isAside → a.addsNothing := Action.addsNothing_of_isAside
  cases c with
  | remove id => exact .bind (Sessions.only_remove id (fun _ => rfl) apart) fun _ => .done ()
  | select id => exact (Sessions.aside_select id).mono apart
  | clear => exact Sessions.only_clear rfl apart
  | _ => exact selects.elim

namespace World

variable {w : World} {a : Action} {n : Nat}

theorem orderly_after (orderly : w.selection.Orderly) (adds : a.addsNothing) :
    (w.after a).selection.Orderly := by
  cases a with
  | step s =>
    cases s
    case openSession => cases adds
    case adopt => cases adds
    case removeSession id => exact orderly.remove id
    case clearSessions => exact Selection.orderly_empty
    case selectSession id => exact orderly.select id
    all_goals exact orderly
  | _ => exact orderly

theorem has_after {times : Nat} (has : w.selectionListeners.Has (.outside n) times) :
    (w.after a).selectionListeners.Has (.outside n) times := by
  cases a with
  | step s =>
    cases s
    case beginSelectionNotice => exact ⟨has.count_alive, has.2⟩
    all_goals exact has
  | _ => exact has

end World

namespace System

variable {w : World} {s : System Unit} {n times : Nat}

theorem Reachable.orderly (orderly : w.selection.Orderly)
    (reach : Reachable (SessionChange.IsRunOf SessionChange.Selects) w s) :
    s.world.selection.Orderly := by
  induction reach with
  | init => exact orderly
  | start _ _ ih => exact ih
  | @act s i a k r v reach caller answers ih =>
    have begins (p : Program Unit) (run : SessionChange.IsRunOf SessionChange.Selects p) :
        p.Obeys ⟨fun (_ : Unit) a => a.addsNothing, fun s _ _ => s⟩ () fun _ _ => True := by
      obtain ⟨c, selects, rfl⟩ := run
      exact selects.addsNothing () trivial
    have adds : a.addsNothing := (reach.obeys begins caller).1
    obtain rfl := answers.after_eq
    exact World.orderly_after ih adds

theorem Reachable.changesOf_singleton (orderly : w.selection.Orderly)
    (reach : Reachable (SessionChange.IsRunOf SessionChange.Selects) w s)
    {before since : List Event} {e : Event} (split : s.history = before ++ e :: since) :
    changesOf (w.replay before) [e] =
      ((Doing.change? ⟨e.action, e.reply⟩).map (e.caller, ·)).toList := by
  obtain ⟨s', _, _, reach', rfl, _, answers⟩ := reach.answered_event split
  have change := (reach'.orderly orderly).change?_eq answers
  rw [answers.after_eq, reach'.world_eq] at change
  rw [change]
  exact List.append_nil _

theorem Reachable.changesOf_eq (orderly : w.selection.Orderly)
    (reach : Reachable (SessionChange.IsRunOf SessionChange.Selects) w s)
    {before since : List Event} (split : s.history = before ++ since) :
    changesOf (w.replay before) since =
      since.filterMap fun e => (Doing.change? ⟨e.action, e.reply⟩).map (e.caller, ·) := by
  induction since generalizing before with
  | nil => rfl
  | cons e since ih =>
    have later := ih (split.trans (List.append_cons ..))
    rw [World.replay_concat] at later
    rw [← List.singleton_append, changesOf_append, reach.changesOf_singleton orderly split]
    show _ ++ changesOf ((w.replay before).after e.action) since = _
    rw [later, List.singleton_append, List.filterMap_cons]
    cases Doing.change? ⟨e.action, e.reply⟩ <;> rfl

theorem Reachable.has {α : Type} {starts : Program α → Prop} {s : System α}
    (has : w.selectionListeners.Has (.outside n) times) (reach : Reachable starts w s) :
    s.world.selectionListeners.Has (.outside n) times := by
  induction reach with
  | init => exact has
  | start _ _ ih => exact ih
  | act _ _ answers ih =>
    obtain rfl := answers.after_eq
    exact World.has_after ih

theorem Reachable.regular {α : Type} {starts : Program α → Prop} {s : System α}
    (has : w.selectionListeners.Has (.outside n) times) (reach : Reachable starts w s)
    (returned : ∀ e ∈ s.history, e.hasReturned) {i : Nat} {d : Doing}
    (mem : d ∈ diary i s.history) : Doing.Regular n times d := by
  obtain ⟨a, r⟩ := d
  have event := mem_diary.mp mem
  cases a with
  | tell m message =>
    have back := returned _ event
    cases r with
    | ok _ => rfl
    | error f => cases back
  | step t =>
    cases t
    case beginSelectionNotice =>
      obtain ⟨before, after, split⟩ := List.mem_iff_append.mp event
      obtain ⟨_, _, _, reach', _, _, answers⟩ := reach.answered_event split
      cases answers
      exact (reach'.has has).count_alive
    all_goals trivial
  | _ => trivial

theorem Reachable.announced (has : w.selectionListeners.Has (.outside n) times)
    (reach : Reachable (SessionChange.IsRunOf SessionChange.Selects) w s)
    (returned : ∀ e ∈ s.history, e.hasReturned) (finished : ∀ p ∈ s.callers, p.hasEnded)
    (i : Nat) : Doing.Announced n times (diary i s.history) := by
  cases caller : s.callers[i]? with
  | none =>
    rw [reach.diary_eq_nil (List.getElem?_eq_none_iff.mp caller)]
    exact .quiet rfl rfl
  | some p =>
    have hasEnded := finished p (List.mem_of_getElem? caller)
    obtain ⟨o, ended⟩ := Program.exists_does_of_hasEnded hasEnded
    obtain ⟨_, ⟨c, selects, rfl⟩, does⟩ := reach.does_of_ended caller ended
    exact SessionChange.announces_run selects _ o does fun d => reach.regular has returned

end System

namespace Sessions

/-- When all selecting, removing and clearing of sessions is over, a listener who was there all the
time has been told of each change by the one who made it, and of nothing else: as often that a
session is selected, or none, as the selection has become so. -/
theorem changes_told_once {n : Nat} {w : World} {s : System Unit}
    (orderly : w.selection.Orderly) (one : w.selectionListeners.HasOne (.outside n))
    (reach : System.Reachable (SessionChange.IsRunOf SessionChange.Selects) w s)
    (returned : ∀ e ∈ s.history, e.hasReturned)
    (finished : ∀ p ∈ s.callers, p.hasEnded) :
    (noticesOf n s.history).Perm (changesOf w s.history) ∧
      ∀ x, (noticesOf n s.history).countP (sameId x ·.2) =
        (changesOf w s.history).countP (sameId x ·.2) := by
  have changes : changesOf w s.history = _ := reach.changesOf_eq orderly (List.nil_append _).symm
  have told : (noticesOf n s.history).Perm (changesOf w s.history) := by
    rw [changes]
    apply System.perm_filterMap
    intro i
    exact (reach.announced one returned finished i).notices_eq
  exact ⟨told, fun x => told.countP_eq _⟩

def awaited : World :=
  { listened with selection := ({} : Selection).register ⟨0, .text "first", ⟨.text "first"⟩⟩ .null }

theorem orderly_awaited : awaited.selection.Orderly :=
  Selection.orderly_empty.register _ (by decide) (by decide)

theorem changes_told_in_another_order :
    let id : Value := .text "first"
    let s := System.scheduled listenersReturn awaited
      [(SessionChange.select id).run, (SessionChange.remove id).run] [0, 0, 1, 1, 1, 1, 0, 0]
    System.Reachable (SessionChange.IsRunOf SessionChange.Selects) awaited s ∧
      awaited.selection.Orderly ∧ awaited.selectionListeners.HasOne (.outside 0) ∧
      (∀ e ∈ s.history, e.hasReturned) ∧ (∀ p ∈ s.callers, p.hasEnded) ∧
      noticesOf 0 s.history = [(1, none), (0, some id)] ∧
      changesOf awaited s.history = [(0, some id), (1, none)] ∧
      (noticesOf 0 s.history).Perm (changesOf awaited s.history) := by
  intro id s
  have reach : System.Reachable (SessionChange.IsRunOf SessionChange.Selects) awaited s := by
    refine System.reachable_scheduled _ _ ?_
    intro p mem
    obtain rfl | rfl : p = (SessionChange.select id).run ∨ p = (SessionChange.remove id).run := by
      simpa using mem
    · exact ⟨.select id, trivial, rfl⟩
    · exact ⟨.remove id, trivial, rfl⟩
  have one : awaited.selectionListeners.HasOne (.outside 0) := ⟨by decide, by decide⟩
  have returned : ∀ e ∈ s.history, e.hasReturned := by decide +kernel
  have finished : ∀ p ∈ s.callers, p.hasEnded := by decide +kernel
  have told := (changes_told_once orderly_awaited one reach returned finished).1
  exact ⟨reach, orderly_awaited, one, returned, finished, by decide +kernel, by decide +kernel,
    told⟩

end Sessions

end ImageBrowser
