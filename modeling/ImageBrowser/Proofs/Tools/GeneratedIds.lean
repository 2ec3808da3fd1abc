import ImageBrowser.Proofs.Sessions.Upkeep
import ImageBrowser.Proofs.Tools.Connecting

/-!
Ids that are still to be generated are not in use. No tool but the one that connects lists a
session, and that one lists it under the id that was generated for it; so whatever tools are called
at once, a session that is connected gets an id that no other one has.
-/

namespace ImageBrowser

open Program (Keeps)

theorem Text.natDigits_injective : Function.Injective natDigits := fun m n same => by
  rw [← natOfDigits_natDigits m, same, natOfDigits_natDigits]

theorem World.generatedId_injective : Function.Injective generatedId := by
  intro m n same
  have plain (n : Nat) : Text.intDigits n = Text.natDigits n := if_neg (by omega)
  have numerals : Text.ofInt m = Text.ofInt n :=
    (String.append_right_inj _).mp (Value.text.inj same)
  have digits : Text.intDigits m = Text.intDigits n := String.ofList_injective numerals
  rw [plain, plain] at digits
  exact Text.natDigits_injective digits

namespace Table

variable {κ ν : Type} [DecidableEq κ] {t t' : Table κ ν} {k : κ}

theorem contains_of_entries_subset (fewer : t'.entries ⊆ t.entries) (there : t'.contains k) :
    t.contains k := by
  rw [contains_iff_mem_keys] at there ⊢
  exact List.map_subset _ fewer there

end Table

namespace Selection

variable {s : Selection} {chosen : Value}

theorem contains_register (h : Handle) (metadata id : Value) : (s.register h metadata).contains id =
    (decide (id.canonical = h.sessionId.canonical) || s.contains id) :=
  Table.contains_insert _ _ _ _

theorem selected_of_remove {id : Value} (mem : chosen ∈ (s.remove id).2.selected) :
    s.selected = some chosen := by
  unfold remove at mem
  split at mem
  · exact mem
  · dsimp only at mem
    split at mem
    · cases mem
    · exact mem

theorem selected_of_select {id : Option Value} (mem : chosen ∈ (s.select id).2.selected) :
    s.selected = some chosen ∨ s.contains chosen := by
  unfold select at mem
  split at mem
  · next there =>
    obtain rfl : id = some chosen := mem
    exact .inr there
  · exact .inl mem

end Selection

namespace World

variable {w v : World}

theorem Unspent.of_fewer (unspent : w.Unspent) (later : w.generatedIds ≤ v.generatedIds)
    (fewer : v.selection.enrolled.entries ⊆ w.selection.enrolled.entries)
    (chosen : ∀ id ∈ v.selection.selected,
      w.selection.selected = some id ∨ w.selection.contains id) : v.Unspent := by
  intro n unused
  obtain ⟨absent, unselected⟩ := unspent n (Nat.lt_of_le_of_lt later unused)
  refine ⟨fun there => absent (Table.contains_of_entries_subset fewer there), fun selected => ?_⟩
  cases same : v.selection.selected with
  | none =>
    rw [Selection.isSelected, same] at selected
    cases selected
  | some id =>
    rw [Selection.isSelected, same] at selected
    obtain kept | there := chosen id same
    · refine unselected ?_
      rwa [Selection.isSelected, kept]
    · have equal : id.canonical = (generatedId n).canonical := by
        rw [Option.getD_some, Value.equals, Bool.and_eq_true] at selected
        exact of_decide_eq_true selected.2
      refine absent ?_
      rwa [Selection.contains, ← equal]

theorem Unspent.register (unspent : w.Unspent) {h : Handle} {metadata : Value} {m : Nat}
    (early : m ≤ w.generatedIds) (named : h.sessionId = generatedId m)
    (listed : v.selection = w.selection.register h metadata)
    (later : w.generatedIds ≤ v.generatedIds) : v.Unspent := by
  intro n unused
  obtain ⟨absent, unselected⟩ := unspent n (Nat.lt_of_le_of_lt later unused)
  rw [listed]
  refine ⟨fun there => ?_, unselected⟩
  rw [Selection.contains_register, named, Bool.or_eq_true, decide_eq_true_eq] at there
  obtain same | there := there
  · have equal : n = m := generatedId_injective same
    omega
  · exact absent there

def Generates (w : World) : Action → Prop
  | .step (.openSession _ id _) => ∃ n ≤ w.generatedIds, id = generatedId n
  | .step (.adopt _ _) => False
  | _ => True

theorem Unspent.after (unspent : w.Unspent) {a : Action} (generates : w.Generates a) :
    (w.after a).Unspent := by
  have same {v : World} (later : w.generatedIds ≤ v.generatedIds)
      (selection : v.selection = w.selection) : v.Unspent := by
    refine unspent.of_fewer later ?_ fun id mem => .inl ?_
    · rw [selection]
      exact List.Subset.refl _
    · rwa [← selection]
  cases a with
  | step s =>
    cases s
    case openSession c id metadata =>
      obtain ⟨m, early, rfl⟩ := generates
      exact unspent.register early rfl rfl (Nat.le_refl _)
    case adopt h metadata => exact generates.elim
    case removeSession id =>
      exact unspent.of_fewer (Nat.le_refl _) (Sessions.entries_remove_subset _ _)
        fun _ mem => .inl (Selection.selected_of_remove mem)
    case clearSessions => exact unspent.of_fewer (Nat.le_refl _) (List.nil_subset _) nofun
    case selectSession id =>
      exact unspent.of_fewer (Nat.le_refl _) (Sessions.entries_select_subset _ _)
        fun _ mem => Selection.selected_of_select mem
    case freshId => exact same (Nat.le_succ _) rfl
    all_goals exact same (Nat.le_refl _) rfl
  | _ => exact same (Nat.le_refl _) rfl

theorem generatedIds_le_after (w : World) (a : Action) :
    w.generatedIds ≤ (w.after a).generatedIds := by
  cases a with
  | step s =>
    cases s
    case freshId => exact Nat.le_succ _
    all_goals exact Nat.le_refl _
  | _ => exact Nat.le_refl _

end World

def generating : Discipline (List Doing) := .diary fun done a =>
  match a with
  | .step (.openSession _ id _) => ⟨.step .freshId, id⟩ ∈ done
  | .step (.adopt _ _) => False
  | _ => True

theorem Action.addsNothing_of_isOfCall {a : Action} (call : a.isOfCall) : a.addsNothing := by
  cases a with
  | step s => cases s <;> first | rfl | cases call
  | _ => rfl

theorem Program.Only.generates {α : Type} {p : Program α} (only : p.Only Action.addsNothing) :
    p.Keeps generating fun _ => True := by
  refine only.keeps (fun {_ a} adds _ => ?_) fun _ _ _ => trivial
  cases a with
  | step s => cases s <;> trivial
  | _ => trivial

namespace Tree

variable {α : Type} {h : Handle} {node : Option Node} {p : Program α}

theorem addsNothing_reports (reports : Reports h node p) : p.Only Action.addsNothing := by
  induction reports with
  | query _ => exact h.run_logical.ofCall.mono fun _ => Action.addsNothing_of_isOfCall
  | read _ next ih => exact .bind ih fun a => (next a).mono fun _ => Action.addsNothing_of_isAside

theorem addsNothing_entry {k : CacheKey} {fetch : Program CacheEntry}
    (fetches : fetch.Only Action.addsNothing) : (entry k fetch).Only Action.addsNothing := by
  apply Keeps.bind (Program.only_act rfl .done)
  intro looked
  cases looked with
  | found e => exact .done e
  | joined ticket => exact Program.only_act rfl .ofExcept
  | owned ticket =>
    exact .bind (.attempt fetches) fun outcome => .bind (Program.only_act rfl .done) fun _ =>
      .bind (Program.only_act rfl .done) fun _ => .ofExcept _

theorem addsNothing_expands (expands : Expands h node p) : p.Only Action.addsNothing := by
  induction expands with
  | aside apart => exact apart.mono fun _ => Action.addsNothing_of_isAside
  | uncached _ reports => exact addsNothing_reports reports
  | cached _ => exact Program.only_act rfl .done
  | entry _ reports => exact addsNothing_entry (addsNothing_reports reports)
  | keyed made _ ih => exact .ofExcept_bind ih
  | after first _ ih => exact .bind (first.mono fun _ => Action.addsNothing_of_isAside) ih
  | bind _ next ih => exact .bind ih fun a => (next a).mono fun _ => Action.addsNothing_of_isAside

theorem addsNothing_children (n : Notifier) (node : Option Node) :
    (children n node).Only Action.addsNothing := by
  apply Keeps.bind (Program.only_act rfl .done)
  intro selected
  cases selected with
  | none => exact .done _
  | some h =>
    refine .handling (addsNothing_expands (expands_childrenOf node)) fun f => ?_
    exact .bind ((aside_notify n _).mono fun _ => Action.addsNothing_of_isAside) fun _ => .done _

end Tree

namespace Tools

theorem addsNothing_browse (node : Value) : (browse node).Only Action.addsNothing := by
  have noticed {a : Action} (adds : a.addsNothing) :
      (Program.act a .done).Only Action.addsNothing := Program.only_act adds .done
  refine keeps_answering ((aside_nodeOf node).mono fun _ => Action.addsNothing_of_isAside)
    (fun _ => .done _) fun node => .bind (noticed rfl) fun _ => ?_
  refine .bind (Tree.addsNothing_children .gather node) fun children => ?_
  have rows : (rowsFor childRow children).Only Action.addsNothing :=
    (aside_rowsFor aside_childRow children).mono fun _ => Action.addsNothing_of_isAside
  exact .bind (noticed rfl) fun _ => .bind rows fun _ => .bind (noticed rfl) fun _ => .done _

theorem addsNothing_run (s : Switches) {t : Tool} (other : t ≠ .connect) (values : List Value) :
    (run s t values).Only Action.addsNothing := by
  by_cases browses : t = .browse
  · subst browses
    unfold run
    split
    case h_5 => exact addsNothing_browse _
    all_goals first | contradiction | exact .fail _
  exact only_run (fun _ => Action.addsNothing_of_isAside) (fun _ => Action.addsNothing_of_isOfCall)
    (fun _ => rfl) s other browses values

theorem generates_enroll (c : Connection) (mode summary : Value) :
    (enroll c mode summary).Keeps generating fun _ => True := by
  intro done _
  refine ⟨trivial, fun id => ⟨List.mem_append_right _ (List.mem_singleton_self _), fun _ => ?_⟩⟩
  have selects := (aside_selectFirst mode summary id).mono fun _ => Action.addsNothing_of_isAside
  exact selects.generates _ trivial

theorem generates_connect (mode user password stone host service : Value) :
    (connect mode user password stone host service).Keeps generating fun _ => True := by
  have asks (c : Connection) (r : Request) : (Program.ask c r).Only Action.addsNothing :=
    Program.only_act rfl .ofExcept
  have summary (c : Connection) : c.summary.Only Action.addsNothing :=
    (inquires_summary c).mono fun a inquires => by
      cases a with
      | ask c r => rfl
      | _ => cases inquires
  unfold connect
  split
  · exact .done _
  · next l _ =>
    have opens : l.open.Only Action.addsNothing :=
      .bind (Program.only_act rfl .done) fun _ =>
        .handling (Program.only_act rfl .ofExcept) fun _ => .fail _
    refine keeps_answering opens.generates (fun _ => .done _) fun c => ?_
    refine keeps_answering (summary c).generates (fun _ => ?_) fun told => ?_
    · exact .bind (asks c _).generates fun _ => .done _
    · exact generates_enroll c _ told

theorem generates_call (s : Switches) (t : Tool) (given : Fields) :
    (call s t given).Keeps generating fun _ => True := by
  apply Keeps.bind (.ofExcept _)
  intro values
  by_cases connects : t = .connect
  · subst connects
    unfold run
    split
    case h_1 => exact generates_connect _ _ _ _ _ _
    all_goals first | contradiction | exact .fail _
  · exact (addsNothing_run s connects values).generates

end Tools

namespace System.Reachable

variable {α : Type} {starts : Program α → Prop} {w : World} {s : System α}

/-- Whoever is at work, ids that are generated for somebody are new. -/
theorem unspent (generates : ∀ p, starts p → p.Obeys generating [] fun _ _ => True)
    (unspent : w.Unspent) (reach : Reachable starts w s) : s.world.Unspent ∧
      ∀ {i id}, ⟨i, .step .freshId, id⟩ ∈ s.history →
        ∃ n ≤ s.world.generatedIds, id = World.generatedId n := by
  -- Others may act between the generation of an id and its listing: that it was generated is kept.
  induction reach with
  | init => exact ⟨unspent, nofun⟩
  | start _ _ ih => exact ih
  | @act s i a k r v reach caller answers ih =>
    obtain ⟨unused, given⟩ := ih
    have allowed := (reach.obeys generates caller).1
    have lists : s.world.Generates a := by
      cases a with
      | step t =>
        cases t
        case openSession c id metadata => exact given (mem_diary.mp allowed)
        case adopt h metadata => exact allowed.elim
        all_goals trivial
      | _ => trivial
    obtain rfl := answers.after_eq
    refine ⟨unused.after lists, fun {j id} mem => ?_⟩
    obtain old | new := List.mem_append.mp mem
    · obtain ⟨n, early, rfl⟩ := given old
      exact ⟨n, Nat.le_trans early (World.generatedIds_le_after _ _), rfl⟩
    · cases List.mem_singleton.mp new
      cases answers
      exact ⟨_, Nat.le_refl _, rfl⟩

end System.Reachable

namespace Tools

/-- From a state without sessions, or any other in which no id is in use that is to be generated,
there is none in use whatever tools are called at once. -/
theorem unspent_of_calls {w : World} {s : System (Tool × Response)} (unspent : w.Unspent)
    (reach : System.Reachable IsLabelledCall w s) : s.world.Unspent := by
  refine (reach.unspent ?_ unspent).1
  rintro _ ⟨s, t, given, rfl⟩
  exact (generates_call s t given).map _ [] trivial

end Tools

end ImageBrowser
