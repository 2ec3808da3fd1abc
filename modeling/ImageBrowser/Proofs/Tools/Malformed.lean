import ImageBrowser.Proofs.Programs.Endings
import ImageBrowser.Tools.Basic

/-!
What is no locator, or no node, is malformed: the readers of both fail in no other way, whatever a
client sent.
-/

namespace ImageBrowser

open Tools (isMalformed)

abbrev ReadOrMalformed {α : Type} : Except Fault α → Prop :=
  Within (fun _ => True) fun f => isMalformed f

theorem malformed_invalid {α : Type} (i : Invalid) :
    ReadOrMalformed (.error (.invalid i) : Except Fault α) := rfl

theorem Value.malformed_asKey (v : Value) : ReadOrMalformed v.asKey := by
  unfold asKey
  split
  · trivial
  · exact rfl

namespace Locator

theorem malformed_checkHost (host : List Char) : ReadOrMalformed (checkHost host) := by
  unfold checkHost
  split
  · split
    · exact True.intro
    · exact malformed_invalid _
  split
  · exact malformed_invalid _
  split
  · exact True.intro
  · exact malformed_invalid _

theorem malformed_checkBrackets (authority : List Char) :
    ReadOrMalformed (checkBrackets authority) := by
  unfold checkBrackets
  split
  · exact True.intro
  · unfold checkAddress
    dsimp only
    split
    · exact malformed_checkHost _
    · split
      · exact malformed_checkHost _
      · exact malformed_invalid _
  · exact malformed_invalid _

theorem malformed_checkMarks (authority : List Char) : ReadOrMalformed (checkMarks authority) := by
  unfold checkMarks
  split
  · exact malformed_invalid _
  · exact True.intro

theorem malformed_splitUrl (s : String) : ReadOrMalformed (splitUrl s) :=
  (malformed_checkBrackets _).bind fun _ _ => (malformed_checkMarks _).bind fun _ _ => trivial

theorem environmentIn_eq_or (query : List Char) :
    (∃ n, environmentIn query = .ok n) ∨ ∃ i, environmentIn query = .error (.invalid i) := by
  unfold environmentIn
  dsimp only
  generalize Text.parseInt _ = number
  cases number with
  | ok n => exact .inl ⟨n, rfl⟩
  | error e => exact .inr ⟨_, rfl⟩

theorem malformed_parse (s : String) : ReadOrMalformed (parse s) := by
  apply (malformed_splitUrl s).bind
  intro url _
  split
  · exact malformed_invalid _
  dsimp only
  split
  · split
    · exact True.intro
    split
    · exact True.intro
    · exact malformed_invalid _
  · split
    -- the number is made a variable, so that nobody tries to read it
    · have outcome := environmentIn_eq_or url.query
      generalize environmentIn url.query = environment at outcome ⊢
      obtain ⟨n, rfl⟩ | ⟨i, rfl⟩ := outcome
      · exact True.intro
      · exact malformed_invalid i
    · exact malformed_invalid _
  · exact malformed_invalid _

end Locator

namespace Node

theorem malformed_kindOf (v : Value) : ReadOrMalformed (kindOf v) := by
  apply v.malformed_asKey.bind
  intro key _
  split
  · exact True.intro
  · exact rfl

theorem malformed_ofFields (fields : List (String × Value)) :
    ReadOrMalformed (ofFields fields) := by
  apply (malformed_kindOf _).bind
  intro kind _
  dsimp only
  split
  · exact rfl
  split
  · split
    · exact True.intro
    · exact rfl
  · exact rfl

theorem malformed_pairOf (index : Nat) (v : Value) : ReadOrMalformed (pairOf index v) := by
  unfold pairOf
  dsimp only
  split
  · split
    · exact True.intro
    · exact rfl
  · exact rfl

theorem malformed_pairsOf (index : Nat) (vs : List Value) :
    ReadOrMalformed (pairsOf index vs) := by
  induction vs generalizing index with
  | nil => trivial
  | cons v vs ih =>
    apply (malformed_pairOf index v).bind
    intro pair _
    apply pair.1.malformed_asKey.bind
    intro key _
    exact (ih (index + 1)).bind fun _ _ => trivial

theorem malformed_ofValue (v : Value) : ReadOrMalformed (ofValue v) := by
  unfold ofValue
  split
  · exact malformed_ofFields _
  · have items : ReadOrMalformed v.asItems := by
      unfold Value.asItems
      split
      · exact True.intro
      · exact rfl
    apply items.bind
    intro items _
    apply (malformed_pairsOf 0 items).bind
    intro pairs _
    apply (malformed_kindOf _).bind
    intro kind _
    split
    · exact malformed_ofFields _
    · exact rfl

end Node

end ImageBrowser
