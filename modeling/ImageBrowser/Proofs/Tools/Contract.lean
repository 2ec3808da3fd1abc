import ImageBrowser.Proofs.Calls.Failures
import ImageBrowser.Proofs.Tree.Browsing
import ImageBrowser.Proofs.Tree.NodeFields
import ImageBrowser.Tools.Basic
import Mathlib.Tactic.FinCases

/-!
What tools are given, what they answer, and what stones may do meanwhile. Two tools make no
provision for everything that a stone may do: to connect expects a login to fail with errors of the
stone alone and a log out not to fail, and to compile a method expects that the class is there.
-/

namespace ImageBrowser

/-! Arguments and answers -/

def Node.isWritable (n : Node) : Bool := n.values.all Value.isWritable

/-- The type of a parameter: a node may be none at all, or something that is no node. Numbers that
have too many digits to be written are left out. -/
def Parameter.Takes (p : Parameter) (v : Value) : Prop :=
  match p.name with
  | "is_meta" | "ignore_case" => ∃ b, v = .flag b
  | "environment_id" => (∃ n, v = .whole n) ∧ v.isWritable
  | "node" => v = .null ∨ ∀ node, Node.ofValue v = .ok node → node.Typed ∧ node.isWritable
  | "locator" => v = .null ∨ v.IsText
  | _ => v.IsText

theorem Parameter.takes_of_name_eq {p q : Parameter} {v : Value} (takes : q.Takes v)
    (same : q.name = p.name) : p.Takes v := by
  unfold Takes at takes ⊢
  rwa [same] at takes

theorem Parameter.takes_default {t : Tool} {p : Parameter} {v : Value} (mem : p ∈ t.parameters)
    (default : p.default = some v) : p.Takes v := by
  cases t
  all_goals
    fin_cases mem
    all_goals first
      | contradiction
      | cases default
        first | exact ⟨⟨_, rfl⟩, Value.isWritable_zero⟩ | exact ⟨_, rfl⟩ | exact .inl rfl

def Tool.Accepts (t : Tool) (values : List Value) : Prop :=
  List.Forall₂ Parameter.Takes t.parameters values

theorem Tool.Accepts.takes {t : Tool} {values : List Value} (accepts : t.Accepts values) {i : Nat}
    {p : Parameter} {v : Value} (parameter : t.parameters[i]? = some p)
    (value : values[i]? = some v) : p.Takes v := by
  obtain ⟨inside, rfl⟩ := List.getElem?_eq_some_iff.mp parameter
  obtain ⟨inside', rfl⟩ := List.getElem?_eq_some_iff.mp value
  exact accepts.get inside inside'

/-- Arguments given by name are for parameters and of their types, and all that are needed are
there. -/
structure Tool.Fits (t : Tool) (given : List (String × Value)) : Prop where
  known : ∀ a ∈ given, ∃ p ∈ t.parameters, p.name = a.1 ∧ p.Takes a.2
  complete : ∀ p ∈ t.parameters, (given.lookup p.name).isSome ∨ p.default.isSome

theorem Tool.Fits.exists_accepts {t : Tool} {given : List (String × Value)} (fits : t.Fits given) :
    ∃ values, t.bindArguments given = .ok values ∧ t.Accepts values := by
  have each (p : Parameter) (mem : p ∈ t.parameters) :
      ∃ v, (given.lookup p.name).or p.default = some v ∧ p.Takes v := by
    cases found : given.lookup p.name with
    | some v =>
      obtain ⟨before, after, rfl, _⟩ := List.lookup_eq_some_iff.mp found
      obtain ⟨q, _, same, takes⟩ := fits.known (p.name, v) (by simp)
      exact ⟨v, rfl, p.takes_of_name_eq takes same⟩
    | none =>
      obtain ⟨v, default⟩ := Option.isSome_iff_exists.mp
        ((fits.complete p mem).resolve_left (by simp [found]))
      exact ⟨v, default, p.takes_default mem default⟩
  obtain ⟨values, bound, accepts⟩ := exists_mapM_forall₂ each
  refine ⟨values, ?_, accepts⟩
  have known : given.all fun a => t.parameters.any fun p => p.name = a.1 := by
    rw [List.all_eq_true]
    intro a mem
    obtain ⟨p, among, same, _⟩ := fits.known a mem
    exact List.any_eq_true.mpr ⟨p, among, decide_eq_true same⟩
  rw [bindArguments, if_pos known, bound]

/-- An object that says whether all went well, and has an error with a message just when it did
not. -/
def Value.IsAnswer (v : Value) : Prop :=
  ∃ fields ok, v = .object fields ∧ (∀ x, ("ok", x) ∈ fields ↔ x = .flag ok) ∧
    (ok = true → ∀ x, ("error", x) ∉ fields) ∧
    (ok = false → ∃ message details,
      ∀ x, ("error", x) ∈ fields ↔ x = .object (("message", .text message) :: details))

namespace Response

def areFree (names : List String) : Bool := names.all fun name => name ≠ "ok" && name ≠ "error"

def Proper (r : Response) : Prop := r.ok = r.error.isNone ∧ areFree (r.fields.map (·.1))

theorem isAnswer_toValue {r : Response} (proper : r.Proper) : r.toValue.IsAnswer := by
  obtain ⟨ok, error, fields⟩ := r
  obtain ⟨same, names⟩ := proper
  have free (x : Value) : ("ok", x) ∉ fields ∧ ("error", x) ∉ fields := by
    simp only [areFree, List.all_map, List.all_eq_true] at names
    constructor
    · intro mem
      simpa using names _ mem
    · intro mem
      simpa using names _ mem
  refine ⟨_, ok, rfl, ?_, ?_, ?_⟩
  · intro x
    cases error with
    | none => simp [free]
    | some e => simp [free]
  · rintro rfl x
    cases error with
    | none => simp [free]
    | some e => contradiction
  · rintro rfl
    cases error with
    | none => contradiction
    | some e => exact ⟨e.message, e.details, fun x => by simp [free, ErrorReport.toValue]⟩

theorem proper_success {fields : Tools.Fields} (names : areFree (fields.map (·.1))) :
    (success fields).Proper := ⟨rfl, names⟩

theorem proper_failure {e : ErrorReport} {fields : Tools.Fields}
    (names : areFree (fields.map (·.1))) :
    (failure e fields).Proper := ⟨rfl, names⟩

end Response

/-! What stones may answer -/

/-- Every request and every login is answered, or fails with what stones fail with. -/
def Outlook.stones : Outlook where
  ask _ := Within (fun _ => True) Fault.IsNumbered
  login := Within (fun _ => True) fun f => f.isFromStone
  exists_ask _ := ⟨.error (.misuse .noResultClass), rfl, Value.isWritable_zero⟩
  exists_login := ⟨.error (.misuse .noResultClass), rfl⟩

/-- The answers that a tool makes no provision for. -/
def Tool.Overlooks : Tool → (r : Request) → Except Fault r.Answer → Prop
  | .connect, .logOut, .error _ => True
  | .compileMethod, .resolve _, .ok none => True
  | _, _, _ => False

def Tool.OverlooksLogin : Tool → Except Fault Connection → Prop
  | .connect, .error (.misuse _) => True
  | _, _ => False

def Outlook.sparing (t : Tool) : Outlook where
  ask r answer := stones.ask r answer ∧ ¬ t.Overlooks r answer
  login answer := stones.login answer ∧ ¬ t.OverlooksLogin answer
  exists_ask r := by
    cases r with
    | logOut => exact ⟨.ok (), trivial, by cases t <;> exact id⟩
    | _ =>
      exact ⟨.error (.misuse .noResultClass), ⟨rfl, Value.isWritable_zero⟩, by cases t <;> exact id⟩
  exists_login := ⟨.ok ⟨.null⟩, trivial, by cases t <;> exact id⟩

structure Tool.ReliesOn (t : Tool) (o : Outlook) (values : List Value) : Prop where
  accepts : t.Accepts values
  fails : o.FailsNumbered
  logins : t = .connect → ∀ f, o.login (.error f) → ∃ e, f = .stone e
  logOuts : t = .connect → ∀ f, ¬ o.ask .logOut (.error f)
  resolves : t = .compileMethod → o.Resolves

theorem Tool.reliesOn_sparing {t : Tool} {values : List Value} (accepts : t.Accepts values) :
    t.ReliesOn (.sparing t) values where
  accepts := accepts
  fails := fun _ _ admitted => admitted.1
  logins := by
    rintro rfl f ⟨fromStone, spared⟩
    cases f with
    | stone e => exact ⟨e, rfl⟩
    | misuse m => exact absurd trivial spared
    | _ => contradiction
  logOuts := by
    rintro rfl f ⟨_, spared⟩
    exact spared trivial
  resolves := by
    rintro rfl name ⟨_, spared⟩
    exact spared trivial

end ImageBrowser
