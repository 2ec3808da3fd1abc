import ImageBrowser.Text.Split
import Mathlib.Data.List.Basic

/-!
What is left of the parts of a text when the text is cut off somewhere. Every part but the last stays
as it was, and the last one is a front part of the one that the cut goes through.
-/

namespace ImageBrowser

/-- The first items of a list, and perhaps one more that a cut has left of the item that follows. -/
inductive CutShort {α : Type} (Shortens : α → α → Prop) : List α → List α → Prop
  | nil (whole : List α) : CutShort Shortens [] whole
  | last {a' a : α} (shortens : Shortens a' a) (rest : List α) :
      CutShort Shortens [a'] (a :: rest)
  | cons (a : α) {part whole : List α} (more : CutShort Shortens part whole) :
      CutShort Shortens (a :: part) (a :: whole)

namespace CutShort

variable {α β : Type} {Shortens : α → α → Prop} {part whole : List α}

theorem filterMap {Shortens' : β → β → Prop} {read : α → Option β}
    (kept : ∀ a ∈ whole, ∀ a' b', Shortens a' a → read a' = some b' →
      ∃ b, read a = some b ∧ Shortens' b' b)
    (short : CutShort Shortens part whole) :
    CutShort Shortens' (part.filterMap read) (whole.filterMap read) := by
  induction short with
  | nil whole => exact .nil _
  | @last a' a shortens rest =>
    cases found : read a' with
    | none =>
      rw [List.filterMap_cons_none found]
      exact .nil _
    | some b' =>
      obtain ⟨b, foundWhole, shortens'⟩ := kept a List.mem_cons_self a' b' shortens found
      rw [List.filterMap_cons_some found, List.filterMap_cons_some foundWhole]
      exact .last shortens' _
  | cons a more ih =>
    have rest := ih fun c mem => kept c (List.mem_cons_of_mem a mem)
    cases found : read a with
    | none => rwa [List.filterMap_cons_none found, List.filterMap_cons_none found]
    | some b =>
      rw [List.filterMap_cons_some found, List.filterMap_cons_some found]
      exact .cons b rest

theorem length_le (short : CutShort Shortens part whole) : part.length ≤ whole.length := by
  induction short with
  | nil whole => exact Nat.zero_le _
  | last shortens rest => simp
  | cons a more ih => simpa using ih

theorem isPrefix (same : ∀ a' a, Shortens a' a → a' = a) (short : CutShort Shortens part whole) :
    part <+: whole := by
  induction short with
  | nil whole => exact List.nil_prefix
  | last shortens rest => simp [same _ _ shortens]
  | cons a more ih => simpa using ih

end CutShort

namespace Text

variable {sep : Char}

def IsFront (a b : String) : Prop := ∃ rest, b = a ++ rest

theorem isFront_upTo (limit : Int) (s : String) : IsFront (upTo limit s) s := by
  refine ⟨String.ofList
    (s.toList.drop (if 0 ≤ limit then limit.toNat else s.length - (-limit).toNat)), ?_⟩
  rw [upTo, ← String.ofList_append, List.take_append_drop, String.ofList_toList]

theorem upTo_of_length_le {n : Nat} {s : String} (fits : s.length ≤ n) : upTo n s = s := by
  have all : s.toList.take n = s.toList := List.take_of_length_le fits
  simp [upTo, all]

theorem upTo_append_of_le {n : Nat} {a : String} (within : n ≤ a.length) (b : String) :
    upTo n (a ++ b) = upTo n a := by
  have inFront : (a.toList ++ b.toList).take n = a.toList.take n :=
    List.take_append_of_le_length within
  simp [upTo, inFront]

theorem upTo_append_of_length_le {n : Nat} {a : String} (behind : a.length ≤ n) (b : String) :
    upTo n (a ++ b) = a ++ upTo (n - a.length : Nat) b := by
  have whole : a.toList.take n = a.toList := List.take_of_length_le behind
  simp [upTo, List.take_append, whole, String.length_toList]

theorem pieces_append (sep : Char) (cs ds : List Char) : ∃ before p q rest,
    pieces sep cs = before ++ [p] ∧ pieces sep ds = q :: rest ∧
      pieces sep (cs ++ ds) = before ++ (p ++ q) :: rest := by
  induction cs with
  | nil =>
    obtain ⟨q, rest, same⟩ := List.exists_cons_of_ne_nil (pieces_ne_nil sep ds)
    exact ⟨[], [], q, rest, by simp, same, by simpa using same⟩
  | cons c cs ih =>
    obtain ⟨before, p, q, rest, front, back, whole⟩ := ih
    rw [List.cons_append]
    by_cases separates : c = sep
    · exact ⟨[] :: before, p, q, rest, by simp [pieces_cons, separates, front], back,
        by simp [pieces_cons, separates, whole]⟩
    · cases before with
      | nil =>
        exact ⟨[], c :: p, q, rest, by simp [pieces_cons, separates, front], back,
          by simp [pieces_cons, separates, whole]⟩
      | cons b before =>
        exact ⟨(c :: b) :: before, p, q, rest, by simp [pieces_cons, separates, front], back,
          by simp [pieces_cons, separates, whole]⟩

theorem split_append (sep : Char) (a b : String) : ∃ before p q rest,
    split sep a = before ++ [p] ∧ split sep b = q :: rest ∧
      split sep (a ++ b) = before ++ (p ++ q) :: rest := by
  obtain ⟨before, p, q, rest, front, back, whole⟩ := pieces_append sep a.toList b.toList
  refine ⟨before.map String.ofList, .ofList p, .ofList q, rest.map String.ofList, ?_, ?_, ?_⟩
  · simp [split, front]
  · simp [split, back]
  · simp [split, whole]

theorem cutShort_split (sep : Char) {a b : String} (front : IsFront a b) :
    CutShort IsFront (split sep a) (split sep b) := by
  obtain ⟨more, rfl⟩ := front
  obtain ⟨before, p, q, rest, split_a, _, split_b⟩ := split_append sep a more
  rw [split_a, split_b]
  clear split_a split_b
  induction before with
  | nil => exact .last ⟨q, rfl⟩ rest
  | cons piece before ih => exact .cons piece ih

theorem eq_empty_of_isFront {a : String} (front : IsFront a "") : a = "" := by
  obtain ⟨rest, same⟩ := front
  exact (String.append_eq_empty_iff.mp same.symm).1

theorem cutShort_nonempty {part whole : List String} (short : CutShort IsFront part whole) :
    CutShort IsFront (nonempty part) (nonempty whole) := by
  unfold nonempty
  rw [← List.filterMap_eq_filter]
  apply short.filterMap
  intro s _ s' t front found
  obtain ⟨rfl, some⟩ := Option.guard_eq_some_iff.mp found
  have whole : s ≠ "" := by
    rintro rfl
    exact of_decide_eq_true some (eq_empty_of_isFront front)
  exact ⟨s, Option.guard_eq_some_iff.mpr ⟨rfl, decide_eq_true whole⟩, front⟩

theorem nonempty_eq_nil_iff {names : List String} : nonempty names = [] ↔ ∀ s ∈ names, s = "" := by
  simp [nonempty]

theorem nonempty_isPrefix_iff (names : List String) :
    nonempty names <+: names ↔ names.Pairwise fun a b => a = "" → b = "" := by
  induction names with
  | nil => simp [nonempty]
  | cons a names ih =>
    rw [List.pairwise_cons]
    by_cases empty : a = ""
    · have rest : nonempty (a :: names) = nonempty names := by simp [nonempty, empty]
      rw [rest, empty]
      constructor
      · intro inFront
        have none : nonempty names = [] := by
          rcases List.prefix_cons_iff.mp inFront with none | ⟨more, kept, -⟩
          · exact none
          · have mem : "" ∈ nonempty names := by simp [kept]
            simp [nonempty] at mem
        have allEmpty := nonempty_eq_nil_iff.mp none
        refine ⟨fun b mem _ => allEmpty b mem, ?_⟩
        exact List.pairwise_of_forall_mem_list fun _ _ b mem _ => allEmpty b mem
      · rintro ⟨allEmpty, -⟩
        rw [nonempty_eq_nil_iff.mpr fun b mem => allEmpty b mem rfl]
        exact List.nil_prefix
    · have first : nonempty (a :: names) = a :: nonempty names := by simp [nonempty, empty]
      rw [first, List.cons_prefix_cons, ih]
      simp [empty]

theorem cutShort_lines {a b : String} (front : IsFront a b) :
    CutShort IsFront (lines a) (lines b) := cutShort_nonempty (cutShort_split '\n' front)

/-! Cuts that go through no line -/

/-- The first text stops at the end of a line, or the second one goes on there. -/
def BetweenLines (a b : String) : Prop :=
  a.toList.getLast?.getD '\n' = '\n' ∨ b.toList.head?.getD '\n' = '\n'

theorem head?_pieces_eq_nil_iff {cs p : List Char} {rest : List (List Char)}
    (same : pieces sep cs = p :: rest) : p = [] ↔ cs.head?.getD sep = sep := by
  cases cs with
  | nil =>
    rw [pieces_nil] at same
    simp [(List.cons.inj same).1.symm]
  | cons c cs =>
    rw [pieces_cons] at same
    by_cases separates : c = sep
    · rw [if_pos separates] at same
      simp [(List.cons.inj same).1.symm, separates]
    · rw [if_neg separates] at same
      simp [(List.cons.inj same).1.symm, separates]

theorem getLast?_pieces_eq_nil_iff {cs p : List Char} {before : List (List Char)}
    (same : pieces sep cs = before ++ [p]) : p = [] ↔ cs.getLast?.getD sep = sep := by
  have last : (pieces sep cs).getLast? = some p := by simp [same]
  rcases List.eq_nil_or_concat cs with rfl | ⟨cs, c, rfl⟩
  · simpa [eq_comm] using last
  · obtain ⟨before', p', q, rest, _, back, whole⟩ := pieces_append sep cs [c]
    rw [List.concat_eq_append, whole] at last
    rw [List.concat_eq_append, List.getLast?_concat, Option.getD_some]
    by_cases separates : c = sep
    · obtain ⟨rfl, rfl⟩ : [] = q ∧ [[]] = rest := by simpa [pieces_cons, separates] using back
      have empty : [] = p := by simpa using last
      simp [empty.symm, separates]
    · obtain ⟨rfl, rfl⟩ : [c] = q ∧ [] = rest := by simpa [pieces_cons, separates] using back
      have some : p' ++ [c] = p := by simpa using last
      simp [some.symm, separates]

/-- The lines of a front part are lines of the whole, unless the cut goes through one of them. -/
theorem lines_isPrefix_iff (a b : String) : lines a <+: lines (a ++ b) ↔ BetweenLines a b := by
  obtain ⟨before, p, q, rest, front, back, whole⟩ := pieces_append '\n' a.toList b.toList
  have lines_a : lines a = nonempty (before.map String.ofList) ++ nonempty [.ofList p] := by
    simp [lines, split, front, nonempty]
  have lines_b : lines (a ++ b) =
      nonempty (before.map String.ofList) ++ nonempty (.ofList (p ++ q) :: rest.map String.ofList) := by
    simp [lines, split, whole, nonempty]
  rw [lines_a, lines_b, List.prefix_append_right_inj, BetweenLines,
    ← getLast?_pieces_eq_nil_iff front, ← head?_pieces_eq_nil_iff back]
  by_cases none : p = []
  · simp [none, nonempty]
  · have same : String.ofList p = String.ofList p ++ String.ofList q ↔ q = [] := by
      rw [← String.ofList_append, String.ofList_inj, List.self_eq_append_right]
    simpa [none, nonempty] using same

end Text

end ImageBrowser
