import ImageBrowser.Text.Split
import Mathlib.Data.List.Sort
import Mathlib.Data.String.Basic

/-! Names that are sorted, all of them or each once: the same names in ascending order. -/

namespace ImageBrowser.Text

theorem sorted_perm (names : List String) : (sorted names).Perm names :=
  List.mergeSort_perm names _

theorem sorted_congr {names names' : List String} (perm : names.Perm names') :
    sorted names = sorted names' :=
  ((sorted_perm names).trans (perm.trans (sorted_perm names').symm)).eq_of_pairwise'
    (pairwise_sorted names) (pairwise_sorted names')

theorem sorted_of_pairwise {names : List String} (inOrder : names.Pairwise (· ≤ ·)) :
    sorted names = names :=
  (sorted_perm names).eq_of_pairwise' (pairwise_sorted names) inOrder

theorem mem_sorted {s : String} {names : List String} : s ∈ sorted names ↔ s ∈ names :=
  (sorted_perm names).mem_iff

theorem dropRepeats_cons (a : String) (names : List String) :
    dropRepeats (a :: names) =
      if (dropRepeats names).head? = some a then dropRepeats names else a :: dropRepeats names := rfl

theorem mem_dropRepeats {s : String} {names : List String} : s ∈ dropRepeats names ↔ s ∈ names := by
  induction names with
  | nil => rfl
  | cons a names ih =>
    rw [dropRepeats_cons, List.mem_cons, ← ih]
    split
    · next kept =>
      have mem : a ∈ dropRepeats names := List.mem_of_mem_head? kept
      constructor
      · exact .inr
      · rintro (rfl | there)
        · exact mem
        · exact there
    · exact List.mem_cons

theorem pairwise_dropRepeats {names : List String} (inOrder : names.Pairwise (· ≤ ·)) :
    (dropRepeats names).Pairwise (· < ·) := by
  induction names with
  | nil => exact .nil
  | cons a names ih =>
    obtain ⟨least, rest⟩ := List.pairwise_cons.mp inOrder
    have ascending := ih rest
    rw [dropRepeats_cons]
    split
    · exact ascending
    · next other =>
      refine List.pairwise_cons.mpr ⟨fun b mem => ?_, ascending⟩
      cases kept : dropRepeats names with
      | nil => simp [kept] at mem
      | cons c more =>
        have known : ∀ d ∈ c :: more, a ≤ d := by
          intro d mem
          exact least d (mem_dropRepeats.mp (kept ▸ mem))
        have first : a < c := by
          apply lt_of_le_of_ne (known c List.mem_cons_self)
          rintro rfl
          exact other (by simp [kept])
        rw [kept] at mem ascending
        rcases List.mem_cons.mp mem with rfl | later
        · exact first
        · exact lt_trans first ((List.pairwise_cons.mp ascending).1 b later)

theorem mem_sortedOnce {s : String} {names : List String} : s ∈ sortedOnce names ↔ s ∈ names :=
  mem_dropRepeats.trans mem_sorted

theorem pairwise_sortedOnce (names : List String) : (sortedOnce names).Pairwise (· < ·) :=
  pairwise_dropRepeats (pairwise_sorted names)

theorem sorted_sortedOnce (names : List String) : sorted (sortedOnce names) = sortedOnce names :=
  sorted_of_pairwise ((pairwise_sortedOnce names).imp le_of_lt)

theorem pairwise_sorted_of_nodup {names : List String} (distinct : names.Nodup) :
    (sorted names).Pairwise (· < ·) := by
  have apart : (sorted names).Nodup := (sorted_perm names).nodup_iff.mpr distinct
  exact ((pairwise_sorted names).and apart).imp fun both => lt_of_le_of_ne both.1 both.2

def Ascends (names : List String) (p : String → Prop) : Prop :=
  names.Pairwise (· < ·) ∧ ∀ s, s ∈ names ↔ p s

theorem ascends_sorted {names : List String} (distinct : names.Nodup) :
    Ascends (sorted names) (· ∈ names) :=
  ⟨pairwise_sorted_of_nodup distinct, fun _ => mem_sorted⟩

theorem ascends_sortedOnce (names : List String) : Ascends (sortedOnce names) (· ∈ names) :=
  ⟨pairwise_sortedOnce names, fun _ => mem_sortedOnce⟩

theorem Ascends.congr {names : List String} {p q : String → Prop} (ascends : Ascends names p)
    (same : ∀ s, p s ↔ q s) : Ascends names q :=
  ⟨ascends.1, fun s => (ascends.2 s).trans (same s)⟩

theorem Ascends.unique {names names' : List String} {p : String → Prop}
    (ascends : Ascends names p) (ascends' : Ascends names' p) : names = names' :=
  ascends.1.eq_of_mem_iff ascends'.1 fun s => (ascends.2 s).trans (ascends'.2 s).symm

theorem sortedOnce_congr {names names' : List String} (same : ∀ s, s ∈ names ↔ s ∈ names') :
    sortedOnce names = sortedOnce names' :=
  ((ascends_sortedOnce names).congr same).unique (ascends_sortedOnce names')

/-- The names are in order, and each of them is there a given number of times. -/
def Counts (names : List String) (n : String → Nat) : Prop :=
  names.Pairwise (· ≤ ·) ∧ ∀ s, names.count s = n s

theorem Counts.mem_iff {names : List String} {n : String → Nat} (counts : Counts names n)
    {s : String} : s ∈ names ↔ 0 < n s := by
  rw [← counts.2, List.count_pos_iff]

end ImageBrowser.Text
