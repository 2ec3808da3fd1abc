/-! Finite tables that list their keys in the order in which they were first entered. -/

namespace ImageBrowser

structure Table (κ ν : Type) where
  entries : List (κ × ν) := []
  deriving DecidableEq, Repr

namespace Table

variable {κ ν : Type}

def empty : Table κ ν := ⟨[]⟩

instance : Inhabited (Table κ ν) := ⟨empty⟩

def keys (t : Table κ ν) : List κ := t.entries.map (·.1)
def values (t : Table κ ν) : List ν := t.entries.map (·.2)
def size (t : Table κ ν) : Nat := t.entries.length

variable [DecidableEq κ]

def find? (t : Table κ ν) (k : κ) : Option ν := t.entries.lookup k

def contains (t : Table κ ν) (k : κ) : Bool := (t.find? k).isSome

/-- A key that is already there keeps its place and takes the new value. -/
def insert (t : Table κ ν) (k : κ) (v : ν) : Table κ ν :=
  if t.contains k then ⟨t.entries.map fun e => if e.1 = k then (e.1, v) else e⟩
  else ⟨t.entries ++ [(k, v)]⟩

def erase (t : Table κ ν) (k : κ) : Table κ ν := ⟨t.entries.filter fun e => e.1 ≠ k⟩

theorem lookup_map_replace (es : List (κ × ν)) (k k' : κ) (v : ν) :
    (es.map fun e => if e.1 = k then (e.1, v) else e).lookup k' =
      if k' = k then (es.lookup k').map fun _ => v else es.lookup k' := by
  induction es with
  | nil => simp
  | cons e es ih =>
    obtain ⟨a, b⟩ := e
    by_cases hk' : k' = a
    · subst hk'
      by_cases hk : k' = k <;> simp [hk]
    · have hb : (k' == a) = false := by simpa using hk'
      by_cases hk : a = k
      · simp only [List.map_cons, hk, if_true, List.lookup_cons]
        rw [← hk, hb, hk, ih]
      · simp only [List.map_cons, hk, if_false, List.lookup_cons, hb, ih]

theorem find?_insert (t : Table κ ν) (k k' : κ) (v : ν) :
    (t.insert k v).find? k' = if k' = k then some v else t.find? k' := by
  unfold insert
  split
  · rename_i h
    simp only [find?, lookup_map_replace]
    split
    · rename_i hk
      subst hk
      simp only [contains, find?] at h
      cases hl : t.entries.lookup k' with
      | none => simp [hl] at h
      | some w => rfl
    · rfl
  · rename_i h
    simp only [find?, List.lookup_append]
    by_cases hk : k' = k
    · subst hk
      simp only [contains, find?] at h
      cases hl : t.entries.lookup k' with
      | none => simp
      | some w => simp [hl] at h
    · have hb : (k' == k) = false := by simpa using hk
      cases hl : t.entries.lookup k' <;> simp [List.lookup_cons, hk, hb]

theorem lookup_filter_ne (es : List (κ × ν)) (k k' : κ) :
    (es.filter fun e => e.1 ≠ k).lookup k' = if k' = k then none else es.lookup k' := by
  induction es with
  | nil => simp
  | cons e es ih =>
    obtain ⟨a, b⟩ := e
    by_cases hk' : k' = a
    · subst hk'
      by_cases hk : k' = k
      · subst hk
        simpa using ih
      · simp [hk]
    · have hb : (k' == a) = false := by simpa using hk'
      by_cases ha : a = k
      · simp only [List.filter_cons, ha, ne_eq, not_true, decide_false, Bool.false_eq_true,
          if_false, List.lookup_cons]
        rw [← ha, hb, ha]
        simpa using ih
      · simp only [List.filter_cons, ha, ne_eq, not_false_eq_true, decide_true, if_true,
          List.lookup_cons, hb]
        simpa using ih

theorem find?_erase (t : Table κ ν) (k k' : κ) :
    (t.erase k).find? k' = if k' = k then none else t.find? k' :=
  lookup_filter_ne t.entries k k'

theorem mem_entries_of_find? {t : Table κ ν} {k : κ} {v : ν} (found : t.find? k = some v) :
    (k, v) ∈ t.entries := by
  obtain ⟨before, after, split, _⟩ := List.lookup_eq_some_iff.mp found
  rw [split]
  exact List.mem_append_right _ List.mem_cons_self

theorem find?_of_mem {entries : List (κ × ν)} {e : κ × ν}
    (distinct : (entries.map (·.1)).Nodup) (mem : e ∈ entries) :
    (Table.mk entries).find? e.1 = some e.2 := by
  induction entries with
  | nil => contradiction
  | cons first entries ih =>
    obtain ⟨k, v⟩ := first
    obtain ⟨apart, rest⟩ := List.nodup_cons.mp distinct
    rcases List.mem_cons.mp mem with rfl | later
    · simp [find?]
    · have other : (e.1 == k) = false := by
        rw [beq_eq_false_iff_ne]
        intro same
        exact apart (List.mem_map.mpr ⟨e, later, same⟩)
      have found := ih rest later
      unfold find? at found ⊢
      rw [List.lookup_cons, other]
      exact found

theorem find?_of_absent {entries : List (κ × ν)} {k : κ} (absent : ∀ e ∈ entries, e.1 ≠ k) :
    (Table.mk entries).find? k = none := by
  cases found : (Table.mk entries).find? k with
  | none => rfl
  | some v => exact absurd rfl (absent (k, v) (mem_entries_of_find? found))

theorem isSome_find?_of_mem {t : Table κ ν} {e : κ × ν} (mem : e ∈ t.entries) :
    (t.find? e.1).isSome :=
  List.lookup_isSome_iff.mpr ⟨e, mem, by simp⟩

theorem mem_entries_insert {t : Table κ ν} {k : κ} {v : ν} {e : κ × ν}
    (mem : e ∈ (t.insert k v).entries) : e = (k, v) ∨ e ∈ t.entries := by
  unfold insert at mem
  split at mem
  · obtain ⟨old, among, rfl⟩ := List.mem_map.mp mem
    split
    · next same => exact .inl (by rw [same])
    · exact .inr among
  · exact (List.mem_append.mp mem).symm.imp_left List.mem_singleton.mp

theorem insert_of_absent {t : Table κ ν} {k : κ} (absent : ¬ t.contains k) (v : ν) :
    t.insert k v = ⟨t.entries ++ [(k, v)]⟩ := if_neg absent

theorem erase_insert_of_absent {t : Table κ ν} {k : κ} (absent : ¬ t.contains k) (v : ν) :
    (t.insert k v).erase k = t := by
  have others : t.entries.filter (fun e => e.1 ≠ k) = t.entries := by
    refine List.filter_eq_self.mpr fun e mem => ?_
    have other : e.1 ≠ k := by
      rintro rfl
      exact absent (isSome_find?_of_mem mem)
    simpa using other
  rw [insert_of_absent absent, erase, List.filter_append, others]
  simp

end Table

end ImageBrowser
