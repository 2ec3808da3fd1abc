import ImageBrowser.Proofs.Calls.ResultClasses

/-!
Queries one after another, on any number of handles that share what is remembered of result classes.
A handle for which a class was found is never asked about again, and all that is executed on it later
is executed with that class. The handles do not matter to each other: what can happen on one is what
can happen on it alone.
-/

namespace ImageBrowser

open Program (Does)

/-! What becomes of other handles -/

def Action.isOfSession (n : Nat) : Action → Bool
  | .step (.claim m) | .step (.release m) | .step (.enter m) | .step (.leave m) => m = n
  | .step (.knownResultClass m) | .step (.rememberResultClass m _) => m = n
  | .ask _ _ | .log _ => true
  | _ => false

theorem Handle.Logical.ofSession {α : Type} {h : Handle} {may : Scope} {p : Program α}
    (logical : h.Logical may p) : p.Only (Action.isOfSession h.number) := by
  apply logical.only
  intro _ a lets
  cases a with
  | step t => cases t <;> first | exact decide_eq_true lets.1 | exact lets.elim
  | ask c r => rfl
  | log e => rfl
  | _ => exact lets.elim

namespace World

structure SameSession (n : Nat) (w v : World) : Prop where
  depth : w.depth n = v.depth n
  resultClass : w.resultClasses.find? n = v.resultClasses.find? n

variable {n m : Nat} {w v u : World}

namespace SameSession

theorem refl : SameSession n w w := ⟨rfl, rfl⟩

theorem symm (same : SameSession n w v) : SameSession n v w :=
  ⟨same.depth.symm, same.resultClass.symm⟩

theorem trans (first : SameSession n w v) (last : SameSession n v u) : SameSession n w u :=
  ⟨first.depth.trans last.depth, first.resultClass.trans last.resultClass⟩

end SameSession

theorem SameSession.setDepth (same : SameSession n w v) (d : Int) :
    SameSession n (w.setDepth n d) (v.setDepth n d) :=
  ⟨by rw [depth_setDepth_self, depth_setDepth_self], same.resultClass⟩

theorem sameSession_setDepth (other : m ≠ n) (d : Int) : SameSession n (w.setDepth m d) w :=
  ⟨depth_setDepth_of_ne other d, rfl⟩

theorem sameSession_after {a : Action} (ofOther : a.isOfSession m) (other : m ≠ n) :
    SameSession n (w.after a) w := by
  cases a with
  | step t =>
    cases t with
    | claim _ | release _ | enter _ | leave _ =>
      cases of_decide_eq_true ofOther
      exact sameSession_setDepth other _
    | rememberResultClass k c =>
      obtain rfl : k = m := of_decide_eq_true ofOther
      refine ⟨rfl, ?_⟩
      show (w.resultClasses.insert k c).find? n = _
      rw [Table.find?_insert, if_neg other.symm]
    | knownResultClass _ => exact .refl
    | _ => cases ofOther
  | _ => exact .refl

theorem SameSession.exists_answers {a : Action} {r : a.Reply} {w' : World}
    (same : SameSession n w v) (own : a.isOfSession n) (answers : Answers w a r w') :
    ∃ v', Answers v a r v' ∧ SameSession n w' v' := by
  cases answers with
  | step t =>
    have stepped : (w.step t).1 = (v.step t).1 ∧ SameSession n (w.step t).2 (v.step t).2 := by
      cases t with
      | claim _ | release _ | enter _ | leave _ =>
        cases of_decide_eq_true own
        simp only [World.step, same.depth]
        first
          | exact ⟨rfl, same.setDepth _⟩
          | exact ⟨trivial, same.setDepth _⟩
      | knownResultClass _ =>
        cases of_decide_eq_true own
        exact ⟨same.resultClass, same⟩
      | rememberResultClass k c =>
        obtain rfl : k = n := of_decide_eq_true own
        refine ⟨rfl, same.depth, ?_⟩
        show (w.resultClasses.insert k c).find? k = (v.resultClasses.insert k c).find? k
        rw [Table.find?_insert, Table.find?_insert, if_pos rfl, if_pos rfl]
      | _ => cases own
    rw [stepped.1]
    exact ⟨_, .step v t, stepped.2⟩
  | ask c q answer => exact ⟨v, .ask v c q answer, same⟩
  | log e => exact ⟨v, .log v e, same⟩
  | _ => cases own

end World

namespace Leads

variable {n m : Nat} {w w' v : World} {ds : List Doing}

theorem sameSession (leads : Leads w ds w') (ofOther : ∀ d ∈ ds, d.1.isOfSession m)
    (other : m ≠ n) : World.SameSession n w' w := by
  induction leads with
  | nil => exact .refl
  | @cons w u w' a r ds answers _ ih =>
    obtain ⟨first, others⟩ := List.forall_mem_cons.mp ofOther
    have one : World.SameSession n u w := answers.after_eq ▸ World.sameSession_after first other
    exact (ih others).trans one

theorem exists_of_sameSession (leads : Leads w ds w') (own : ∀ d ∈ ds, d.1.isOfSession n)
    (same : World.SameSession n w v) : ∃ v', Leads v ds v' ∧ World.SameSession n w' v' := by
  induction leads generalizing v with
  | nil => exact ⟨v, .nil v, same⟩
  | cons answers _ ih =>
    obtain ⟨first, others⟩ := List.forall_mem_cons.mp own
    obtain ⟨u, answers', same⟩ := same.exists_answers first answers
    obtain ⟨v', rest, same⟩ := ih others same
    exact ⟨v', .cons answers' rest, same⟩

end Leads

/-! Queries in turn -/

/-- Queries that are made one after another, each with what the one before has left. -/
inductive InTurn : World → List Query → World → Prop
  | nil (w : World) : InTurn w [] w
  | cons {w u v : World} {q : Query} {qs : List Query} (goes : q.Goes w u) (rest : InTurn u qs v) :
      InTurn w (q :: qs) v

def onHandle (n : Nat) (qs : List Query) : List Query := qs.filter (·.handle.number = n)

namespace Query

variable {q : Query} {n : Nat} {w v u : World} {known : Table Nat RemoteObject}

theorem ofSession (goes : q.Goes w v) : ∀ d ∈ q.done, d.1.isOfSession q.handle.number :=
  q.logical.ofSession.does goes.1

theorem Goes.sameSession (goes : q.Goes w v) (other : q.handle.number ≠ n) :
    World.SameSession n v w :=
  goes.2.sameSession (ofSession goes) other

theorem Goes.exists_of_sameSession (goes : q.Goes w v)
    (same : World.SameSession q.handle.number w u) :
    ∃ u', q.Goes u u' ∧ World.SameSession q.handle.number v u' := by
  obtain ⟨u', leads, same⟩ := goes.2.exists_of_sameSession (ofSession goes) same
  exact ⟨u', ⟨goes.1, leads⟩, same⟩

theorem Looks.keeps_known {c : RemoteObject} (looks : q.Looks w known)
    (there : w.resultClasses.find? n = some c) : known.find? n = some c := by
  cases looks with
  | found unknown _ _ =>
    rw [Table.find?_insert]
    split
    · next same =>
      subst same
      rw [unknown] at there
      cases there
    · exact there
  | _ => exact there

theorem Looks.of_known {c : RemoteObject} (looks : q.Looks w known)
    (there : w.resultClasses.find? q.handle.number = some c) :
    q.resolutions = [] ∧ q.ExecutesWith c := by
  cases looks with
  | refused _ resolutions uses => exact ⟨resolutions, uses c⟩
  | known found resolutions uses =>
    cases there.symm.trans found
    exact ⟨resolutions, uses⟩
  | found unknown _ _ =>
    rw [unknown] at there
    cases there
  | unresolved _ unknown _ _ _ _ =>
    rw [unknown] at there
    cases there

theorem Looks.of_unknown (looks : q.Looks w known) (free : ¬ 0 < w.depth q.handle.number)
    (missing : w.resultClasses.find? q.handle.number = none) :
    ∃ found, q.resolutions = [found] := by
  cases looks with
  | refused busy _ _ => exact absurd busy free
  | known found _ _ =>
    rw [missing] at found
    cases found
  | found _ resolutions _ => exact ⟨_, resolutions⟩
  | unresolved _ _ _ resolutions _ _ => exact ⟨_, resolutions⟩

theorem Looks.of_found {c : RemoteObject} (looks : q.Looks w known)
    (found : .ok (some c) ∈ q.resolutions) :
    q.resolutions = [.ok (some c)] ∧ q.ExecutesWith c ∧
      known.find? q.handle.number = some c := by
  cases looks with
  | found _ resolutions uses =>
    cases List.mem_singleton.mp (resolutions ▸ found)
    exact ⟨resolutions, uses, by rw [Table.find?_insert, if_pos rfl]⟩
  | unresolved _ _ nothing resolutions _ _ =>
    exact absurd (List.mem_singleton.mp (resolutions ▸ found)).symm (nothing c)
  | refused _ resolutions _ | known _ resolutions _ =>
    rw [resolutions] at found
    cases found

theorem Looks.of_unresolved {answer : Except Fault (Option RemoteObject)}
    (looks : q.Looks w known) (found : answer ∈ q.resolutions)
    (nothing : ∀ c, answer ≠ .ok (some c)) :
    q.resolutions = [answer] ∧ q.executions = [] ∧
      q.outcome = .error (Handle.unresolved answer) ∧
      ¬ 0 < w.depth q.handle.number ∧ known.find? q.handle.number = none := by
  cases looks with
  | found _ resolutions _ =>
    exact absurd (List.mem_singleton.mp (resolutions ▸ found)) (nothing _)
  | unresolved free unknown _ resolutions executions outcome =>
    cases List.mem_singleton.mp (resolutions ▸ found)
    exact ⟨resolutions, executions, outcome, free, unknown⟩
  | refused _ resolutions _ | known _ resolutions _ =>
    rw [resolutions] at found
    cases found

end Query

namespace InTurn

variable {n : Nat} {w v u : World} {first last qs : List Query}

theorem of_append (run : InTurn w (first ++ last) v) :
    ∃ u, InTurn w first u ∧ InTurn u last v := by
  induction first generalizing w with
  | nil => exact ⟨w, .nil w, run⟩
  | cons q first ih =>
    cases run with
    | cons goes rest =>
      obtain ⟨u, before, after⟩ := ih rest
      exact ⟨u, .cons goes before, after⟩

theorem concat {q : Query} (run : InTurn w first u) (goes : q.Goes u v) :
    InTurn w (first ++ [q]) v := by
  induction run with
  | nil => exact .cons goes (.nil v)
  | cons goes' _ ih => exact .cons goes' (ih goes)

theorem of_known {c : RemoteObject} (run : InTurn w qs v)
    (there : w.resultClasses.find? n = some c) :
    ∀ q ∈ qs, q.handle.number = n → q.resolutions = [] ∧ q.ExecutesWith c := by
  induction run with
  | nil => simp
  | cons goes _ ih =>
    have looks := Query.looks_of_goes goes
    refine List.forall_mem_cons.mpr ⟨?_, ih (looks.keeps_known there)⟩
    rintro rfl
    exact looks.of_known there

theorem sameSession (run : InTurn w qs v) (others : ∀ q ∈ qs, q.handle.number ≠ n) :
    World.SameSession n v w := by
  induction run with
  | nil => exact .refl
  | cons goes _ ih =>
    obtain ⟨other, others⟩ := List.forall_mem_cons.mp others
    exact (ih others).trans (goes.sameSession other)

theorem exists_onHandle (run : InTurn w qs v) (same : World.SameSession n w u) :
    ∃ u', InTurn u (onHandle n qs) u' ∧ World.SameSession n v u' := by
  induction run generalizing u with
  | nil => exact ⟨u, .nil u, same⟩
  | @cons w w' v q qs goes _ ih =>
    by_cases own : q.handle.number = n
    · subst own
      obtain ⟨u', goes', same⟩ := goes.exists_of_sameSession same
      obtain ⟨u'', rest, same⟩ := ih same
      refine ⟨u'', ?_, same⟩
      rw [onHandle, List.filter_cons_of_pos (by simp)]
      exact .cons goes' rest
    · have kept := goes.sameSession own
      obtain ⟨u', rest, same⟩ := ih (kept.trans same)
      refine ⟨u', ?_, same⟩
      rw [onHandle, List.filter_cons_of_neg (by simpa using own)]
      exact rest

/-- Queries that can be made alone on each handle, can be made in any order among the handles. -/
theorem exists_of_onHandle
    (alone : ∀ n, ∃ u u', World.SameSession n u w ∧ InTurn u (onHandle n qs) u') :
    ∃ v, InTurn w qs v := by
  induction qs generalizing w with
  | nil => exact ⟨w, .nil w⟩
  | cons q qs ih =>
    obtain ⟨u, u', same, run⟩ := alone q.handle.number
    rw [onHandle, List.filter_cons_of_pos (by simp)] at run
    cases run with
    | cons goes rest =>
      obtain ⟨w', goes', left⟩ := goes.exists_of_sameSession same
      obtain ⟨v, run⟩ := ih fun n => by
        by_cases own : q.handle.number = n
        · subst own
          exact ⟨_, u', left, rest⟩
        · obtain ⟨u, u', same, run⟩ := alone n
          rw [onHandle, List.filter_cons_of_neg (by simpa using own)] at run
          have kept := goes'.sameSession own
          exact ⟨u, u', same.trans kept.symm, run⟩
      exact ⟨v, .cons goes' run⟩

end InTurn

/-- Of queries in turn, on any handles and whatever is answered: each comes to its end. Once a class
was found for a handle, the stone is never asked for it again there, and all that is executed on the
handle is executed with that class. Where the stone has no class or fails to give it, nothing is
executed or remembered, and the query fails: as refused where the stone has failed, and with what was
raised otherwise. The next query on the handle asks for the class again. Whatever is done on one
handle can be done on it alone, and what can be done on each alone can be done in any order. -/
theorem result_class_resolved_once {w v : World} {qs : List Query} (run : InTurn w qs v) :
    (∀ (o : Outlook) (h : Handle) (label : String) (code : Value) (u : World),
      (h.fetch label code).Ends o u fun _ _ => True) ∧
    (∀ {first q last c}, qs = first ++ q :: last → .ok (some c) ∈ q.resolutions →
      q.resolutions = [.ok (some c)] ∧ q.ExecutesWith c ∧
      ∀ q' ∈ last, q'.handle.number = q.handle.number →
        q'.resolutions = [] ∧ q'.ExecutesWith c) ∧
    (∀ {first q last found}, qs = first ++ q :: last → found ∈ q.resolutions →
      (∀ c, found ≠ .ok (some c)) →
      q.resolutions = [found] ∧ q.executions = [] ∧
      q.outcome = .error (Handle.unresolved found) ∧
      (∃ u, InTurn w (first ++ [q]) u ∧ InTurn u last v ∧
        u.resultClasses.find? q.handle.number = none) ∧
      ∀ {between q' rest}, last = between ++ q' :: rest →
        (∀ p ∈ between, p.handle.number ≠ q.handle.number) →
        q'.handle.number = q.handle.number → ∃ found', q'.resolutions = [found']) ∧
    (∀ n, ∃ u, InTurn w (onHandle n qs) u ∧
      u.resultClasses.find? n = v.resultClasses.find? n) ∧
    ∀ qs', (∀ n, ∃ u, InTurn w (onHandle n qs') u) → ∃ u, InTurn w qs' u := by
  refine ⟨?ends, ?found, ?unresolved, ?alone, ?together⟩
  case ends =>
    intro o h label code u
    have meets : Program.Meets o (fun _ => True) (h.fetch label code) (fun _ => True)
        fun f => False → f.isRefusal :=
      Handle.meets_fetch (fun _ _ _ _ => trivial) False.elim
    exact (meets u trivial).mono fun _ _ _ => trivial
  case found =>
    rintro first q last c rfl found
    obtain ⟨_, _, rest⟩ := run.of_append
    cases rest with
    | cons goes rest =>
      obtain ⟨once, uses, remembered⟩ := (Query.looks_of_goes goes).of_found found
      exact ⟨once, uses, rest.of_known remembered⟩
  case unresolved =>
    rintro first q last found rfl asked nothing
    obtain ⟨_, before, rest⟩ := run.of_append
    cases rest with
    | @cons _ u _ _ _ goes rest =>
      obtain ⟨once, quiet, outcome, free, missing⟩ :=
        (Query.looks_of_goes goes).of_unresolved asked nothing
      refine ⟨once, quiet, outcome, ⟨u, before.concat goes, rest, missing⟩, ?_⟩
      rintro between q' after rfl others same
      obtain ⟨u', elsewhere, next⟩ := rest.of_append
      have kept := elsewhere.sameSession others
      cases next with
      | cons goes' _ =>
        rw [← Query.depth_of_goes goes, ← kept.depth, ← same] at free
        rw [← kept.resultClass, ← same] at missing
        exact (Query.looks_of_goes goes').of_unknown free missing
  case alone =>
    intro n
    obtain ⟨u, alone, same⟩ := run.exists_onHandle (n := n) .refl
    exact ⟨u, alone, same.resultClass.symm⟩
  case together =>
    intro qs' alone
    refine InTurn.exists_of_onHandle fun n => ?_
    obtain ⟨u, run⟩ := alone n
    exact ⟨w, u, .refl, run⟩

def scripted : List (Outside × Handle × String) → World → Option (List Query × World)
  | [], w => some ([], w)
  | (outside, h, code) :: rest, w =>
    ((h.fetch "names" (.text code)).course outside w).bind fun (ds, outcome, u) =>
      (scripted rest u).map fun (qs, v) => (⟨h, "names", .text code, ds, outcome⟩ :: qs, v)

theorem inTurn_of_scripted {script : List (Outside × Handle × String)} {w v : World}
    {qs : List Query} (made : scripted script w = some (qs, v)) : InTurn w qs v := by
  induction script generalizing w qs with
  | nil =>
    cases made
    exact .nil _
  | cons first script ih =>
    obtain ⟨⟨ds, outcome, u⟩, course, later⟩ := Option.bind_eq_some_iff.mp made
    obtain ⟨⟨qs, _⟩, rest, whole⟩ := Option.map_eq_some_iff.mp later
    cases whole
    exact .cons (Program.does_of_course course) (ih rest)

/-- What is answered where the class of results is asked for; all else is answered. -/
def resolving (found : Except Fault (Option RemoteObject)) : Outside
  | .ask _ (.resolve _) => some found
  | .ask _ (.execute source) => some (.ok ⟨2, source, ""⟩)
  | .ask _ (.fetch object) => some (.ok object.description)
  | _ => none

def utf8 (n : Nat) : RemoteObject := ⟨n, .text "Utf8", "Utf8"⟩

def sessionHandle (n : Nat) (name : String) : Handle := ⟨n, .text name, ⟨.text name⟩⟩

structure Query.Summary where
  handle : Nat
  resolutions : List (Except Fault (Option RemoteObject))
  executions : List Value
  outcome : Except Fault String
  deriving DecidableEq

def Query.summary (q : Query) : Query.Summary :=
  ⟨q.handle.number, q.resolutions, q.executions, q.outcome⟩

def silent : Fault := .stone ⟨"", .whole 2101, none, .flag false, none⟩

def askedAgain : List (Outside × Handle × String) :=
  [(resolving (.error silent), sessionHandle 0 "session-1", "a"),
    (resolving (.ok (some (utf8 8))), sessionHandle 1 "session-2", "b"),
    (resolving (.ok (some (utf8 9))), sessionHandle 0 "session-1", "c"),
    (resolving (.ok none), sessionHandle 0 "session-1", "d")]

theorem result_class_resolved_once_for_two_sessions : ∃ first q q' v,
    InTurn {} (first ++ [q, q']) v ∧
    first.map Query.summary =
      [⟨0, [.error silent], [],
          .error (.refused (.queryFailed "Cannot resolve Utf8 class" (.whole 2101)))⟩,
        ⟨1, [.ok (some (utf8 8))], [.text "b"], .ok "b"⟩] ∧
    q.summary = ⟨0, [.ok (some (utf8 9))], [.text "c"], .ok "c"⟩ ∧
    q'.summary = ⟨0, [], [.text "d"], .ok "d"⟩ ∧
    q.ExecutesWith (utf8 9) ∧ q'.ExecutesWith (utf8 9) ∧
    ∃ u, InTurn {} (onHandle 0 (first ++ [q, q'])) u := by
  have made : (scripted askedAgain {}).map (fun s => s.1.map Query.summary) = some (
      [⟨0, [.error silent], [],
          .error (.refused (.queryFailed "Cannot resolve Utf8 class" (.whole 2101)))⟩,
        ⟨1, [.ok (some (utf8 8))], [.text "b"], .ok "b"⟩] ++
      [⟨0, [.ok (some (utf8 9))], [.text "c"], .ok "c"⟩, ⟨0, [], [.text "d"], .ok "d"⟩]) := by
    decide +kernel
  obtain ⟨⟨qs, v⟩, made, shown⟩ := Option.map_eq_some_iff.mp made
  obtain ⟨first, _, rfl, before, shown⟩ := List.map_eq_append_iff.mp shown
  obtain ⟨q, _, rfl, found, shown⟩ := List.map_eq_cons_iff.mp shown
  obtain ⟨q', _, rfl, used, shown⟩ := List.map_eq_cons_iff.mp shown
  obtain rfl := List.map_eq_nil_iff.mp shown
  have run := inTurn_of_scripted made
  obtain ⟨-, uses, -, alone, -⟩ := result_class_resolved_once run
  have same : q'.handle.number = q.handle.number :=
    (congrArg Query.Summary.handle used).trans (congrArg Query.Summary.handle found).symm
  have asked : q.resolutions = [.ok (some (utf8 9))] := congrArg Query.Summary.resolutions found
  obtain ⟨-, executes, later⟩ := uses rfl (by rw [asked]; exact List.mem_singleton_self _)
  obtain ⟨u, alone, -⟩ := alone 0
  exact ⟨first, q, q', v, run, before, found, used, executes,
    (later q' (List.mem_singleton_self _) same).2, u, alone⟩

/-- A failure that is not one of stones is raised as it is. -/
theorem result_class_failed_otherwise : ¬ ∀ {w v : World} {qs : List Query}, InTurn w qs v →
    ∀ q ∈ qs, ∀ f, .error f ∈ q.resolutions →
      ∃ message number, q.outcome = .error (.refused (.queryFailed message number)) := by
  intro refuses
  have made : (scripted [(resolving (.error (.crash "gone")), sessionHandle 0 "session-1", "nil")]
      {}).map (fun s => s.1.map Query.summary) =
        some [⟨0, [.error (.crash "gone")], [], .error (.crash "gone")⟩] := by
    decide +kernel
  obtain ⟨⟨qs, v⟩, made, shown⟩ := Option.map_eq_some_iff.mp made
  obtain ⟨q, _, rfl, failed, _⟩ := List.map_eq_cons_iff.mp shown
  have asked : q.resolutions = [.error (.crash "gone")] :=
    congrArg Query.Summary.resolutions failed
  have outcome : q.outcome = .error (.crash "gone") := congrArg Query.Summary.outcome failed
  obtain ⟨_, _, refused⟩ := refuses (inTurn_of_scripted made) q List.mem_cons_self (.crash "gone")
    (by rw [asked]; exact List.mem_singleton_self _)
  rw [outcome] at refused
  cases refused

end ImageBrowser
