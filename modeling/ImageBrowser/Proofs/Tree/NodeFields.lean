import ImageBrowser.Node
import Mathlib.Data.List.Forall2
import Mathlib.Data.List.Nodup

/-!
Nodes as objects with named fields, as clients keep them and send them back. What is written for a
node is read back as that node. Main statement: an object is read exactly when it says a known kind
and has the fields of that kind besides, no more and no fewer, in any order; a node that is read has
all that the object says.
-/

namespace ImageBrowser

/-! Values picked by name -/

section

variable {α β : Type} {pick : α → Option β} {as : List α} {bs : List β}

theorem exists_mapM_forall₂ {R : α → β → Prop} (each : ∀ a ∈ as, ∃ b, pick a = some b ∧ R a b) :
    ∃ bs, as.mapM pick = some bs ∧ List.Forall₂ R as bs := by
  induction as with
  | nil => exact ⟨[], rfl, .nil⟩
  | cons a as ih =>
    obtain ⟨b, found, first⟩ := each a List.mem_cons_self
    obtain ⟨bs, rest, all⟩ := ih fun a mem => each a (List.mem_cons_of_mem _ mem)
    refine ⟨b :: bs, ?_, .cons first all⟩
    rw [List.mapM_cons, found, rest]
    rfl

theorem forall₂_of_mapM (picked : as.mapM pick = some bs) :
    List.Forall₂ (fun a b => pick a = some b) as bs := by
  induction as generalizing bs with
  | nil =>
    cases picked
    exact .nil
  | cons a as ih =>
    rw [List.mapM_cons] at picked
    obtain ⟨b, first, picked⟩ := Option.bind_eq_some_iff.mp picked
    obtain ⟨bs, rest, whole⟩ := Option.bind_eq_some_iff.mp picked
    cases whole
    exact .cons first (ih rest)

theorem exists_of_forall₂ (picked : List.Forall₂ (fun a b => pick a = some b) as bs) {a : α}
    (mem : a ∈ as) : ∃ b, pick a = some b := by
  induction picked with
  | nil => contradiction
  | cons here _ ih =>
    rcases List.mem_cons.mp mem with rfl | later
    · exact ⟨_, here⟩
    · exact ih later

theorem mem_zip_of_forall₂ (picked : List.Forall₂ (fun a b => pick a = some b) as bs) {a : α}
    {b : β} : (a, b) ∈ as.zip bs ↔ a ∈ as ∧ pick a = some b := by
  induction picked with
  | nil => simp
  | @cons first value as bs here _ ih =>
    rw [List.zip_cons_cons, List.mem_cons, ih, List.mem_cons, Prod.mk.injEq]
    constructor
    · rintro (⟨rfl, rfl⟩ | ⟨mem, found⟩)
      · exact ⟨.inl rfl, here⟩
      · exact ⟨.inr mem, found⟩
    · rintro ⟨rfl | mem, found⟩
      · exact .inl ⟨rfl, Option.some.inj (found.symm.trans here)⟩
      · exact .inr ⟨mem, found⟩

end

theorem NodeKind.ofTag?_eq_some_iff {s : String} {k : NodeKind} :
    ofTag? s = some k ↔ s = k.tag := by
  constructor
  · intro found
    have tagged : decide (k.tag = s) := List.find?_some (p := fun k : NodeKind => k.tag = s) found
    exact (of_decide_eq_true tagged).symm
  · rintro rfl
    cases k <;> rfl

theorem NodeKind.nodup_names (k : NodeKind) : (ownFieldName :: "kind" :: k.fieldNames).Nodup := by
  cases k <;> decide

namespace Node

variable {d e : List (String × Value)} {k : NodeKind} {n : Node}

/-! Writing a node -/

theorem ofValue_toValue (n : Node) : ofValue n.toValue = .ok n := by
  cases n <;> rfl

theorem length_values (n : Node) : n.values.length = n.kind.fieldNames.length := by
  cases n <;> rfl

theorem names_toFields (n : Node) : n.toFields.map (·.1) = "kind" :: n.kind.fieldNames := by
  simp [toFields, fields, List.map_fst_zip (Nat.le_of_eq n.length_values.symm)]

theorem ofValues?_eq_some_iff {values : List Value} :
    ofValues? k values = some n ↔ n.kind = k ∧ n.values = values := by
  constructor
  · intro made
    unfold ofValues? at made
    split at made
    all_goals first
      | cases made
        exact ⟨rfl, rfl⟩
      | contradiction
  · rintro ⟨rfl, rfl⟩
    cases n <;> rfl

theorem exists_ofValues? {values : List Value} (all : values.length = k.fieldNames.length) :
    ∃ n, ofValues? k values = some n := by
  cases k with
  | dictionary => match values, all with | [_, _, _], _ => exact ⟨_, rfl⟩
  | classCategory | cls | definition | comment | global =>
    match values, all with | [_, _, _, _], _ => exact ⟨_, rfl⟩
  | side => match values, all with | [_, _, _, _, _, _], _ => exact ⟨_, rfl⟩
  | category => match values, all with | [_, _, _, _, _, _, _], _ => exact ⟨_, rfl⟩
  | method => match values, all with | [_, _, _, _, _, _, _, _], _ => exact ⟨_, rfl⟩

/-! Reading an object -/

theorem kindOf_text (s : String) :
    kindOf (.text s) = match NodeKind.ofTag? s with
      | some k => .ok k
      | none => .error (.invalid (.unknownKind (.text s))) := rfl

theorem kindOf_eq_ok_iff {v : Value} : kindOf v = .ok k ↔ v = .text k.tag := by
  constructor
  · intro known
    cases v with
    | text s =>
      rw [kindOf_text] at known
      split at known
      · next found =>
        cases known
        rw [NodeKind.ofTag?_eq_some_iff.mp found]
      · contradiction
    | _ => cases known
  · rintro rfl
    cases k <;> rfl

/-- The object says of which kind it is, and its other fields are those of the kind. -/
structure Describes (k : NodeKind) (d : List (String × Value)) : Prop where
  kind : d.lookup "kind" = some (.text k.tag)
  names : (d.map (·.1)).Perm ("kind" :: k.fieldNames)

def others (d : List (String × Value)) : List (String × Value) := d.filter fun f => f.1 ≠ "kind"

def picked? (k : NodeKind) (d : List (String × Value)) : Option (List Value) :=
  k.fieldNames.mapM fun name => (others d).lookup name

theorem lookup_eq_some_iff (distinct : (d.map (·.1)).Nodup) {name : String} {v : Value} :
    d.lookup name = some v ↔ (name, v) ∈ d :=
  ⟨Table.mem_entries_of_find? (t := ⟨d⟩), Table.find?_of_mem distinct⟩

theorem mem_names_iff {name : String} : name ∈ d.map (·.1) ↔ ∃ v, d.lookup name = some v := by
  rw [← Option.isSome_iff_exists, List.lookup_isSome_iff, List.mem_map]
  simp

theorem ofFields_of_kind (said : d.lookup "kind" = some (.text k.tag)) :
    ofFields d =
      if ownFieldName ∈ d.map (·.1) then .error (.mismatch .ownField)
      else if d.map (·.1) ⊆ "kind" :: k.fieldNames then
        match (picked? k d).bind (ofValues? k) with
        | some n => .ok n
        | none => .error (.mismatch (.wrongFields k.name k.fieldNames))
      else .error (.mismatch (.wrongFields k.name k.fieldNames)) := by
  have known : kindOf ((d.lookup "kind").getD .null) = .ok k := by
    rw [said]
    exact kindOf_eq_ok_iff.mpr rfl
  have own : (others d).any (fun f => f.1 = ownFieldName) ↔ ownFieldName ∈ d.map (·.1) := by
    have apart : ownFieldName ≠ "kind" := by decide
    simp only [others, List.any_filter, List.any_eq_true, List.mem_map]
    constructor
    · rintro ⟨f, mem, named⟩
      exact ⟨f, mem, by simpa using (Bool.and_eq_true_iff.mp named).2⟩
    · rintro ⟨f, mem, named⟩
      exact ⟨f, mem, by simp [named, apart]⟩
  have all : (others d).all (fun f => k.fieldNames.contains f.1) ↔
      d.map (·.1) ⊆ "kind" :: k.fieldNames := by
    simp [others, List.subset_def, or_iff_not_imp_left]
  unfold ofFields
  rw [known]
  exact if_congr own rfl (if_congr all rfl rfl)

theorem lookup_others {name : String} (mem : name ∈ k.fieldNames) :
    (others d).lookup name = d.lookup name := by
  have other : name ≠ "kind" := by
    rintro rfl
    exact (List.nodup_cons.mp k.nodup_names.of_cons).1 mem
  rw [others, Table.lookup_filter_ne, if_neg other]

theorem mem_zip_picked {values : List Value} (picked : picked? k d = some values) {name : String}
    {v : Value} :
    (name, v) ∈ k.fieldNames.zip values ↔ name ∈ k.fieldNames ∧ d.lookup name = some v := by
  rw [mem_zip_of_forall₂ (forall₂_of_mapM picked)]
  exact and_congr_right fun mem => by rw [lookup_others mem]

theorem Describes.exists_picked (described : Describes k d) :
    ∃ values, picked? k d = some values := by
  have each : ∀ name ∈ k.fieldNames, ∃ v, (others d).lookup name = some v ∧ True := by
    intro name mem
    obtain ⟨v, found⟩ := mem_names_iff.mp
      (described.names.mem_iff.mpr (List.mem_cons_of_mem _ mem))
    exact ⟨v, (lookup_others mem).trans found, trivial⟩
  obtain ⟨values, picked, _⟩ := exists_mapM_forall₂ each
  exact ⟨values, picked⟩

theorem Describes.exists_ofFields (described : Describes k d) :
    ∃ n, ofFields d = .ok n ∧ n.toFields.Perm d := by
  have distinct : (d.map (·.1)).Nodup := described.names.nodup_iff.mpr k.nodup_names.of_cons
  obtain ⟨values, picked⟩ := described.exists_picked
  have length : values.length = k.fieldNames.length :=
    (forall₂_of_mapM picked).length_eq.symm
  obtain ⟨n, made⟩ := exists_ofValues? length
  obtain ⟨rfl, rfl⟩ := ofValues?_eq_some_iff.mp made
  refine ⟨n, ?_, ?_⟩
  · have own : ownFieldName ∉ d.map (·.1) := by
      rw [described.names.mem_iff]
      exact (List.nodup_cons.mp n.kind.nodup_names).1
    rw [ofFields_of_kind described.kind, if_neg own, if_pos described.names.subset, picked,
      Option.bind_some, made]
  · have distinct' : (n.toFields.map (·.1)).Nodup := by
      rw [names_toFields]
      exact n.kind.nodup_names.of_cons
    rw [List.perm_ext_iff_of_nodup (.of_map _ distinct') (.of_map _ distinct)]
    rintro ⟨name, v⟩
    rw [← lookup_eq_some_iff distinct, toFields, fields, List.mem_cons, mem_zip_picked picked]
    constructor
    · rintro (same | ⟨-, found⟩)
      · cases same
        exact described.kind
      · exact found
    · intro found
      rcases List.mem_cons.mp (described.names.subset (mem_names_iff.mpr ⟨v, found⟩)) with
        rfl | mem
      · exact .inl (by rw [Option.some.inj (found.symm.trans described.kind)])
      · exact .inr ⟨mem, found⟩

theorem ofFields_of_not_describes (distinct : (d.map (·.1)).Nodup)
    (said : d.lookup "kind" = some (.text k.tag)) (other : ¬ Describes k d) :
    ofFields d = .error (.mismatch (if ownFieldName ∈ d.map (·.1) then .ownField
      else .wrongFields k.name k.fieldNames)) := by
  rw [ofFields_of_kind said]
  split
  · rfl
  split
  · next subset =>
    cases picked : picked? k d with
    | none => rfl
    | some values =>
      refine absurd ⟨said, ?_⟩ other
      rw [List.perm_ext_iff_of_nodup distinct k.nodup_names.of_cons]
      intro name
      refine ⟨fun mem => subset mem, fun mem => ?_⟩
      rcases List.mem_cons.mp mem with rfl | mem
      · exact mem_names_iff.mpr ⟨_, said⟩
      · obtain ⟨v, found⟩ := exists_of_forall₂ (forall₂_of_mapM picked) mem
        exact mem_names_iff.mpr ⟨v, (lookup_others mem).symm.trans found⟩
  · rfl

theorem kindOf_of_unknown {v : Value} (plain : v = .null ∨ ∃ s, v = .text s)
    (unknown : ∀ k : NodeKind, v ≠ .text k.tag) :
    kindOf v = .error (.invalid (.unknownKind v)) := by
  obtain rfl | ⟨s, rfl⟩ := plain
  · rfl
  · have absent : NodeKind.ofTag? s = none := by
      rw [Option.eq_none_iff_forall_ne_some]
      intro k found
      exact unknown k (by rw [NodeKind.ofTag?_eq_some_iff.mp found])
    rw [kindOf_text, absent]

theorem ofFields_of_unknown (plain : ∀ v, d.lookup "kind" = some v → v = .null ∨ ∃ s, v = .text s)
    (unknown : ∀ k : NodeKind, d.lookup "kind" ≠ some (.text k.tag)) :
    ofFields d = .error (.invalid (.unknownKind ((d.lookup "kind").getD .null))) := by
  unfold ofFields
  rw [kindOf_of_unknown]
  · rfl
  · cases said : d.lookup "kind" with
    | none => exact .inl rfl
    | some v => exact plain v said
  · intro k same
    cases said : d.lookup "kind" with
    | none => simp [said] at same
    | some v => exact unknown k (by rw [said, ← same, said, Option.getD_some])

/-- Every node is read back from what is written for it. An object with a name for each field, and a
kind that is a text or nothing, is read exactly when it describes a node of a known kind, and what
is written for that node is all that the object says. Otherwise it has the wrong value for a kind
where the kind is not known or not said, and is of the wrong type where it has other fields than
those of its kind. -/
theorem read_iff_described :
    (∀ n : Node, ofValue n.toValue = .ok n) ∧
      ∀ d : List (String × Value), (d.map (·.1)).Nodup →
        (∀ v, d.lookup "kind" = some v → v = .null ∨ ∃ s, v = .text s) →
        ((∃ n, ofValue (.object d) = .ok n) ↔ ∃ k, Describes k d) ∧
        (∀ n, ofValue (.object d) = .ok n → n.toFields.Perm d) ∧
        ((∀ k : NodeKind, d.lookup "kind" ≠ some (.text k.tag)) →
          ofValue (.object d) =
            .error (.invalid (.unknownKind ((d.lookup "kind").getD .null)))) ∧
        ∀ k : NodeKind, d.lookup "kind" = some (.text k.tag) → ¬ Describes k d →
          ofValue (.object d) = .error (.mismatch (if ownFieldName ∈ d.map (·.1) then .ownField
            else .wrongFields k.name k.fieldNames)) := by
  refine ⟨ofValue_toValue, fun d distinct plain => ?_⟩
  have described {n : Node} (read : ofFields d = .ok n) : ∃ k, Describes k d := by
    by_contra none
    by_cases known : ∃ k : NodeKind, d.lookup "kind" = some (.text k.tag)
    · obtain ⟨k, said⟩ := known
      rw [ofFields_of_not_describes distinct said fun described => none ⟨k, described⟩] at read
      cases read
    · rw [ofFields_of_unknown plain fun k said => known ⟨k, said⟩] at read
      cases read
  refine ⟨⟨?_, ?_⟩, ?_, ofFields_of_unknown plain, fun k => ofFields_of_not_describes distinct⟩
  · rintro ⟨n, read⟩
    exact described read
  · rintro ⟨k, describes⟩
    obtain ⟨n, read, _⟩ := describes.exists_ofFields
    exact ⟨n, read⟩
  · intro n read
    obtain ⟨k, describes⟩ := described read
    obtain ⟨m, read', same⟩ := describes.exists_ofFields
    cases read.symm.trans read'
    exact same

theorem read_described_in_another_order :
    let d : List (String × Value) := [("name", .text "Globals"), ("kind", .text "dictionary"),
      ("session_id", .text "session-1"), ("dictionary_index", .whole 1)]
    let d' := ("self", .null) :: d
    ((d.map (·.1)).Nodup ∧ d.lookup "kind" = some (.text "dictionary") ∧
        Describes .dictionary d ∧ ∃ n, ofValue (.object d) = .ok n ∧ n.toFields.Perm d) ∧
      (d'.map (·.1)).Nodup ∧ ¬ Describes .dictionary d' ∧
        ofValue (.object d') = .error (.mismatch .ownField) := by
  intro d d'
  have distinct : (d.map (·.1)).Nodup := by decide
  have distinct' : (d'.map (·.1)).Nodup := by decide
  have plain : ∀ v, d.lookup "kind" = some v → v = .null ∨ ∃ s, v = .text s :=
    fun _ said => .inr ⟨_, (Option.some.inj said).symm⟩
  have plain' : ∀ v, d'.lookup "kind" = some v → v = .null ∨ ∃ s, v = .text s :=
    fun _ said => .inr ⟨_, (Option.some.inj said).symm⟩
  have describes : Describes .dictionary d := ⟨rfl, by decide⟩
  have other : ¬ Describes .dictionary d' := fun describes => absurd describes.names (by decide)
  obtain ⟨read, same, -, -⟩ := read_iff_described.2 d distinct plain
  obtain ⟨-, -, -, refused⟩ := read_iff_described.2 d' distinct' plain'
  obtain ⟨n, found⟩ := read.mpr ⟨.dictionary, describes⟩
  exact ⟨⟨distinct, rfl, describes, n, found, same n found⟩, distinct', other,
    refused .dictionary rfl other⟩

end Node

end ImageBrowser
