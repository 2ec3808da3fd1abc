import ImageBrowser.Text.Split
import Mathlib.Data.List.TakeWhile

/-!
Text that was put together with a separator falls apart again at the same places, as long as the
separator stands in none of the parts.
-/

namespace ImageBrowser.Text

variable {sep : Char} {cs : List Char}

theorem pieces_append_separator (sep : Char) (cs ds : List Char) :
    pieces sep (cs ++ sep :: ds) = pieces sep cs ++ pieces sep ds := by
  induction cs with
  | nil => rw [List.nil_append, pieces_cons, if_pos rfl, pieces_nil, List.singleton_append]
  | cons c cs ih =>
    rw [List.cons_append, pieces_cons, pieces_cons, ih]
    split
    · rfl
    · obtain ⟨p, rest, same⟩ := List.exists_cons_of_ne_nil (pieces_ne_nil sep cs)
      rw [same]
      rfl

theorem intercalate_pieces (sep : Char) (cs : List Char) :
    [sep].intercalate (pieces sep cs) = cs := by
  induction cs with
  | nil => rfl
  | cons c cs ih =>
    obtain ⟨p, rest, same⟩ := List.exists_cons_of_ne_nil (pieces_ne_nil sep cs)
    rw [same] at ih
    rw [pieces_cons, same]
    split
    · next separates =>
      rw [List.intercalate_cons_cons, ih, separates]
      rfl
    · cases rest with
      | nil => simpa using ih
      | cons q rest => simpa [List.intercalate_cons_cons] using ih

theorem pieces_of_absent (absent : sep ∉ cs) : pieces sep cs = [cs] := by
  induction cs with
  | nil => rfl
  | cons c cs ih =>
    have other : c ≠ sep := by
      rintro rfl
      simp at absent
    have tail := ih fun mem => absent (List.mem_cons_of_mem c mem)
    rw [pieces_cons, if_neg other, tail]
    rfl

theorem pieces_append_cons (absent : sep ∉ cs) (rest : List Char) :
    pieces sep (cs ++ sep :: rest) = cs :: pieces sep rest := by
  rw [pieces_append_separator, pieces_of_absent absent, List.singleton_append]

theorem pieces_append_flatMap (absent : sep ∉ cs) {parts : List (List Char)}
    (apart : ∀ p ∈ parts, sep ∉ p) :
    pieces sep (cs ++ parts.flatMap (sep :: ·)) = cs :: parts := by
  induction parts generalizing cs with
  | nil => rw [List.flatMap_nil, List.append_nil, pieces_of_absent absent]
  | cons p parts ih =>
    have rest := ih (apart p List.mem_cons_self) fun q mem => apart q (List.mem_cons_of_mem p mem)
    rw [List.flatMap_cons, List.cons_append, pieces_append_cons absent, rest]

theorem cut_of_absent (absent : sep ∉ cs) : cut sep cs = (cs, none) := by
  have all : ∀ c ∈ cs, decide (c ≠ sep) = true := by
    intro c mem
    simpa using ne_of_mem_of_not_mem mem absent
  have front : cs.takeWhile (· ≠ sep) = cs := List.takeWhile_eq_self_iff.mpr all
  have back : cs.dropWhile (· ≠ sep) = [] := List.dropWhile_eq_nil_iff.mpr all
  rw [cut, front, back]
  rfl

theorem cut_append_cons (absent : sep ∉ cs) (rest : List Char) :
    cut sep (cs ++ sep :: rest) = (cs, some rest) := by
  have all : ∀ c ∈ cs, decide (c ≠ sep) = true := by
    intro c mem
    simpa using ne_of_mem_of_not_mem mem absent
  rw [cut, List.takeWhile_append_of_pos all, List.dropWhile_append_of_pos all]
  simp

end ImageBrowser.Text
