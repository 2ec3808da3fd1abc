import ImageBrowser.Proofs.Programs.Schedule
import ImageBrowser.Proofs.Tools.Answers
import ImageBrowser.Server
import Mathlib.Tactic.FinCases

/-!
Every tool answers. In whatever state a server has come to, a tool that is given arguments of the
types it asks for comes to an end with an object that says whether all went well, and with a message
if it did not, however its stones fail; what the tools make no provision for is left out, and shown
to be left out for a reason.
-/

namespace ImageBrowser

namespace Server

/-- The states of sessions and tree that a server can come to: tools are called and sessions are
changed, one after another, and whatever they are answered; others may be at work in a session. -/
inductive Reached (settings : Settings) : World → Prop
  | initial : Reached settings (initial settings)
  | called {w v : World} {s : Switches} {t : Tool} {given : List (String × Value)}
      {outcome : Except Fault Response} (reached : Reached settings w)
      (runs : (Tools.call s t given).Runs .unlimited w outcome v) : Reached settings v
  | changed {w v : World} {c : SessionChange} {outcome : Except Fault Unit}
      (reached : Reached settings w) (runs : c.run.Runs .unlimited w outcome v) :
      Reached settings v
  | occupied {w : World} {depths : Table Nat Int} (reached : Reached settings w) :
      Reached settings { w with depths := depths }

variable {settings : Settings} {w : World}

theorem sound_initial : (initial settings).Sound none where
  enrolled := nofun
  stored := nofun
  inFlight := nofun
  listeners _ mem := List.mem_singleton.mp mem
  watchers := rfl

theorem Reached.sound (reached : Reached settings w) : w.Sound none := by
  induction reached with
  | initial => exact sound_initial
  | called _ runs sound => exact ((Tools.serves_call _ _ _ _ sound).of_runs runs).1
  | changed _ runs sound => exact ((SessionChange.meets_run _ _ sound).of_runs runs).1
  | occupied _ sound => exact sound.congr rfl rfl rfl rfl

/-- Every tool that is called with arguments that fit answers, unless a stone answers what the tool
makes no provision for. -/
theorem tools_answer (reached : Reached settings w) (s : Switches) {t : Tool}
    {given : List (String × Value)} (fits : t.Fits given) :
    (Tools.call s t given).Ends (.sparing t) w fun outcome _ =>
      ∃ response, outcome = .ok response ∧ response.toValue.IsAnswer := by
  obtain ⟨values, bound, accepts⟩ := fits.exists_accepts
  apply (Tools.serves_call s t given w reached.sound).mono
  rintro (f | response) v ⟨_, within⟩
  · exact absurd ⟨values, bound, t.reliesOn_sparing accepts⟩ within
  · exact ⟨response, rfl, Response.isAnswer_toValue within⟩

def oneSession : World :=
  let id : Value := .text "session-1"
  { initial {} with
    selection := ((({} : Selection).register ⟨0, id, ⟨id⟩⟩ .null).select (some id)).2
    cache := ({} : Cache CacheKey CacheEntry).clear }

theorem reached_oneSession : Reached {} oneSession := by
  let id : Value := .text "session-1"
  have admitted (a : Action) (r : a.Reply) (_ : none = some r) : Outlook.unlimited.admits a r :=
    nomatch ‹none = some r›
  have adopted : Reached {} { initial {} with
      selection := ({} : Selection).register ⟨0, id, ⟨id⟩⟩ .null } :=
    Reached.initial.changed (c := .adopt ⟨0, id, ⟨id⟩⟩ .null)
      (Program.runs_of_alone (fun _ => none) admitted rfl)
  exact adopted.changed (c := .select id)
    (Program.runs_of_alone (fun _ => none) admitted rfl)

def compileOrder : List (String × Value) :=
  [("class_name", .text "Order"), ("source", .text "total ^0")]

theorem fits_compileOrder : Tool.compileMethod.Fits compileOrder := by
  constructor
  · intro a mem
    fin_cases mem
    · exact ⟨⟨"class_name", none⟩, by decide, rfl, _, rfl⟩
    · exact ⟨⟨"source", none⟩, by decide, rfl, _, rfl⟩
  · decide

def connectHere : List (String × Value) := [("connection_mode", .text "linked")]

theorem fits_connectHere : Tool.connect.Fits connectHere := by
  constructor
  · intro a mem
    fin_cases mem
    exact ⟨⟨"connection_mode", none⟩, by decide, rfl, _, rfl⟩
  · decide

theorem compile_answers :
    (Tools.call ⟨false, true⟩ .compileMethod compileOrder).Ends (.sparing .compileMethod)
      oneSession fun outcome _ => ∃ response, outcome = .ok response ∧ response.toValue.IsAnswer :=
  tools_answer reached_oneSession _ fits_compileOrder

def withoutClasses : Outside
  | .ask _ (.resolve _) => some (.ok none)
  | .ask _ (.create _) | .ask _ (.toSymbol _) | .ask _ (.execute _) => some (.ok ⟨0, .null, ""⟩)
  | _ => none

theorem admits_withoutClasses (a : Action) (r : a.Reply) (answered : withoutClasses a = some r) :
    Outlook.stones.admits a r := by
  cases a with
  | ask c q =>
    cases q
    all_goals first
      | contradiction
      | cases answered
        trivial
  | login l => contradiction
  | _ => trivial

def noInterface : Fault := .misuse (.reported "no interface")

def withoutInterface : Outside
  | .login _ => some (.error noInterface)
  | _ => none

theorem admits_withoutInterface (a : Action) (r : a.Reply)
    (answered : withoutInterface a = some r) : Outlook.stones.admits a r := by
  cases a with
  | ask c q => contradiction
  | login l =>
    cases answered
    exact (rfl : noInterface.isFromStone)
  | _ => trivial

def gone : Fault := .stone ⟨"gone", .whole 0, none, .flag true, none⟩

def goneAfterLogin : Outside
  | .login _ => some (.ok ⟨.null⟩)
  | .ask _ _ => some (.error gone)
  | _ => none

theorem admits_goneAfterLogin (a : Action) (r : a.Reply) (answered : goneAfterLogin a = some r) :
    Outlook.stones.admits a r := by
  cases a with
  | ask c q =>
    cases answered
    exact ⟨rfl, Value.isWritable_zero⟩
  | login l =>
    cases answered
    trivial
  | _ => trivial

/-- A compile in a class that is not there raises, and so does a connect whose login fails
otherwise than a stone does, or whose log out fails. -/
theorem tools_raise :
    let compiles := Tools.call ⟨false, true⟩ .compileMethod compileOrder
    let connects := Tools.call ⟨false, false⟩ .connect connectHere
    Reached {} oneSession ∧ Tool.compileMethod.Fits compileOrder ∧
      Tool.connect.Fits connectHere ∧
      (∃ v, compiles.Runs .stones oneSession (.error (.noSuchOperation "NoneType"
        "compileMethod_dictionaries_category_environmentId")) v) ∧
      (∃ v, connects.Runs .stones (initial {}) (.error noInterface) v) ∧
      (∃ v, connects.Runs .stones (initial {}) (.error gone) v) ∧
      ¬ (compiles.Ends .stones oneSession fun outcome _ =>
        ∃ response, outcome = .ok response ∧ response.toValue.IsAnswer) ∧
      ¬ (connects.Ends .stones (initial {}) fun outcome _ =>
        ∃ response, outcome = .ok response ∧ response.toValue.IsAnswer) := by
  intro compiles connects
  have raises {p : Program Response} {w v : World} {f : Fault}
      (runs : p.Runs .stones w (.error f) v) : ¬ p.Ends .stones w fun outcome _ =>
        ∃ response, outcome = .ok response ∧ response.toValue.IsAnswer := by
    intro ends
    obtain ⟨response, same, _⟩ := ends.of_runs runs
    contradiction
  have unresolved : ∃ v, compiles.Runs .stones oneSession (.error (.noSuchOperation "NoneType"
      "compileMethod_dictionaries_category_environmentId")) v :=
    Program.exists_runs_of_alone withoutClasses admits_withoutClasses (by decide +kernel)
  have unavailable : ∃ v, connects.Runs .stones (initial {}) (.error noInterface) v :=
    Program.exists_runs_of_alone withoutInterface admits_withoutInterface (by decide +kernel)
  have unreachable : ∃ v, connects.Runs .stones (initial {}) (.error gone) v :=
    Program.exists_runs_of_alone goneAfterLogin admits_goneAfterLogin (by decide +kernel)
  exact ⟨reached_oneSession, fits_compileOrder, fits_connectHere, unresolved, unavailable,
    unreachable, raises unresolved.choose_spec, raises unavailable.choose_spec⟩

end Server

end ImageBrowser
