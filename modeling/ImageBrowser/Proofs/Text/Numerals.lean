import ImageBrowser.Proofs.Text.Splitting
import ImageBrowser.Text.Numeral
import Mathlib.Algebra.Group.Nat.Defs
import Mathlib.Data.List.TakeWhile

/-!
The numeral of a whole number is read back as that number, unless it is longer than what is read
of any numeral.
-/

namespace ImageBrowser.Text

theorem mem_natDigits {n : Nat} {c : Char} (mem : c ∈ natDigits n) :
    ∃ d, d < 10 ∧ c = digitChar d := by
  induction n using natDigits.induct with
  | case1 n small =>
    rw [natDigits, if_pos small, List.mem_singleton] at mem
    exact ⟨n, small, mem⟩
  | case2 n large ih =>
    rw [natDigits, if_neg large, List.mem_append, List.mem_singleton] at mem
    rcases mem with earlier | last
    · exact ih earlier
    · exact ⟨n % 10, Nat.mod_lt n (by decide), last⟩

theorem natDigits_ne_nil (n : Nat) : natDigits n ≠ [] := by
  rw [natDigits]
  split <;> simp

theorem intDigits_ne_nil (n : Int) : intDigits n ≠ [] := by
  have some := natDigits_ne_nil n.natAbs
  rw [intDigits]
  split
  · simp
  · exact some

theorem intDigits_natCast (n : Nat) : intDigits n = natDigits n := if_neg (by omega)

theorem length_natDigits_le {n k : Nat} (some : 0 < k) (small : n < 10 ^ k) :
    (natDigits n).length ≤ k := by
  induction n using natDigits.induct generalizing k with
  | case1 n _ =>
    rw [natDigits, if_pos ‹_›]
    exact some
  | case2 n large ih =>
    obtain ⟨k, rfl⟩ : ∃ j, k = j + 1 := ⟨k - 1, by omega⟩
    rw [Nat.pow_succ] at small
    have rest : n / 10 < 10 ^ k := by omega
    have more : 0 < k := by
      by_contra none
      obtain rfl : k = 0 := by omega
      omega
    have := ih more rest
    rw [natDigits, if_neg large, List.length_append, List.length_singleton]
    omega

theorem length_ofInt (n : Nat) : (ofInt n).length = (natDigits n).length := by
  rw [ofInt, intDigits_natCast, String.length_ofList]

theorem lt_pow_length_natDigits (n : Nat) : n < 10 ^ (natDigits n).length := by
  induction n using natDigits.induct with
  | case1 n small =>
    rw [natDigits, if_pos small]
    simpa using small
  | case2 n large ih =>
    rw [natDigits, if_neg large, List.length_append, List.length_singleton, Nat.pow_succ]
    omega

theorem length_natDigits_le_iff {n k : Nat} (some : 0 < k) :
    (natDigits n).length ≤ k ↔ n < 10 ^ k := by
  refine ⟨fun short => ?_, length_natDigits_le some⟩
  exact (lt_pow_length_natDigits n).trans_le (Nat.pow_le_pow_right (by decide) short)

theorem natDigits_div_pow {n k : Nat} (some : k < (natDigits n).length) :
    natDigits (n / 10 ^ k) = (natDigits n).take ((natDigits n).length - k) := by
  induction k with
  | zero => simp
  | succ k ih =>
    have more := ih (by omega)
    have large : ¬n / 10 ^ k < 10 := by
      intro small
      have length : (natDigits (n / 10 ^ k)).length ≤ 1 :=
        length_natDigits_le (by decide) (by simpa using small)
      rw [more, List.length_take] at length
      omega
    rw [natDigits, if_neg large, Nat.div_div_eq_div_mul, ← Nat.pow_succ] at more
    have front := congrArg List.dropLast more
    rw [List.dropLast_concat] at front
    rw [front, List.dropLast_eq_take, List.take_take, List.length_take]
    congr 1
    omega

/-! The characters of a numeral -/

theorem decimalDigit?_digitChar {d : Nat} (small : d < 10) :
    decimalDigit? (digitChar d) = some d := by
  revert d
  decide

theorem isNumeralBlank_digitChar {d : Nat} (small : d < 10) :
    isNumeralBlank (digitChar d) = false := by
  revert d
  decide

theorem digitChar_ne_mark {d : Nat} (small : d < 10) :
    digitChar d ≠ '-' ∧ digitChar d ≠ '+' ∧ digitChar d ≠ '_' := by
  revert d
  decide

theorem dropEnds_of_none {p : Char → Bool} {cs : List Char} (none : ∀ c ∈ cs, p c = false) :
    dropEnds p cs = cs := by
  have kept {ds : List Char} (none : ∀ c ∈ ds, p c = false) : ds.dropWhile p = ds := by
    rw [List.dropWhile_eq_self_iff]
    intro inside
    simp [none _ (List.getElem_mem inside)]
  have back : ∀ c ∈ cs.reverse, p c = false := fun c mem => none c (List.mem_reverse.mp mem)
  rw [dropEnds, kept none, kept back, List.reverse_reverse]

theorem isNumeralBlank_of_mem_natDigits {n : Nat} {c : Char} (mem : c ∈ natDigits n) :
    isNumeralBlank c = false := by
  obtain ⟨d, small, rfl⟩ := mem_natDigits mem
  exact isNumeralBlank_digitChar small

theorem isNumeralBlank_of_mem_intDigits {n : Int} {c : Char} (mem : c ∈ intDigits n) :
    isNumeralBlank c = false := by
  unfold intDigits at mem
  split at mem
  · rcases List.mem_cons.mp mem with rfl | digit
    · decide
    · exact isNumeralBlank_of_mem_natDigits digit
  · exact isNumeralBlank_of_mem_natDigits mem

theorem signed_intDigits (n : Int) :
    signed (intDigits n) = (decide (n < 0), natDigits n.natAbs) := by
  unfold intDigits
  split
  · next negative => simp [signed, negative]
  · next natural =>
    cases digits : natDigits n.natAbs with
    | nil => exact absurd digits (natDigits_ne_nil _)
    | cons c cs =>
      have mem : c ∈ natDigits n.natAbs := by simp [digits]
      obtain ⟨d, small, rfl⟩ := mem_natDigits mem
      obtain ⟨minus, plus, _⟩ := digitChar_ne_mark small
      rw [signed]
      · simp [natural]
      · intro _ same
        exact minus (List.cons.inj same).1
      · intro _ same
        exact plus (List.cons.inj same).1

theorem takeWhile_natDigits (n : Nat) : (natDigits n).takeWhile isDigitOrBar = natDigits n := by
  rw [List.takeWhile_eq_self_iff]
  intro c mem
  obtain ⟨d, small, rfl⟩ := mem_natDigits mem
  simp [isDigitOrBar, decimalDigit?_digitChar small]

theorem barsApart_natDigits (n : Nat) : barsApart (natDigits n) = true := by
  have absent : '_' ∉ natDigits n := by
    intro mem
    obtain ⟨d, small, same⟩ := mem_natDigits mem
    exact (digitChar_ne_mark small).2.2 same.symm
  rw [barsApart, pieces_of_absent absent]
  simp [natDigits_ne_nil]

/-! The value of a numeral -/

theorem filterMap_natDigits_length (n : Nat) :
    ((natDigits n).filterMap decimalDigit?).length = (natDigits n).length := by
  rw [List.filterMap_length_eq_length]
  intro c mem
  obtain ⟨d, small, rfl⟩ := mem_natDigits mem
  simp [decimalDigit?_digitChar small]

theorem natOfDigits_natDigits (n : Nat) :
    natOfDigits ((natDigits n).filterMap decimalDigit?) = n := by
  induction n using natDigits.induct with
  | case1 n small =>
    rw [natDigits, if_pos small]
    simp [decimalDigit?_digitChar small, natOfDigits]
  | case2 n large ih =>
    have last : n % 10 < 10 := Nat.mod_lt n (by decide)
    rw [natDigits, if_neg large, List.filterMap_append]
    unfold natOfDigits at ih ⊢
    rw [List.foldl_append, ih]
    simp [decimalDigit?_digitChar last]
    omega

theorem parseInt_ofInt_eq (n : Int) :
    parseInt (ofInt n) =
      if maxDigits < (natDigits n.natAbs).length then .error (.tooLong (natDigits n.natAbs).length)
      else .ok n := by
  have clean : dropEnds isNumeralBlank (intDigits n) = intDigits n :=
    dropEnds_of_none fun _ => isNumeralBlank_of_mem_intDigits
  unfold parseInt
  rw [ofInt, String.toList_ofList, clean, signed_intDigits]
  simp only [takeWhile_natDigits, barsApart_natDigits, filterMap_natDigits_length,
    natOfDigits_natDigits, Bool.not_true, Bool.false_eq_true, if_false, lt_irrefl]
  congr 2
  split
  · next negative =>
    have negative : n < 0 := by simpa using negative
    omega
  · next natural =>
    have natural : ¬ n < 0 := by simpa using natural
    omega

theorem parseInt_ofInt {n : Int} (short : n.natAbs < 10 ^ maxDigits) :
    parseInt (ofInt n) = .ok n := by
  have length : (natDigits n.natAbs).length ≤ maxDigits :=
    length_natDigits_le (by decide) short
  rw [parseInt_ofInt_eq, if_neg (Nat.not_lt.mpr length)]

theorem parseInt?_ofInt (n : Int) :
    parseInt? (ofInt n) = if n.natAbs < 10 ^ maxDigits then some n else none := by
  have length : (natDigits n.natAbs).length ≤ maxDigits ↔ n.natAbs < 10 ^ maxDigits :=
    length_natDigits_le_iff (by decide)
  rw [parseInt?, parseInt_ofInt_eq]
  by_cases short : n.natAbs < 10 ^ maxDigits
  · rw [if_neg (Nat.not_lt.mpr (length.mpr short)), if_pos short]
    rfl
  · rw [if_pos (Nat.not_le.mp (mt length.mp short)), if_neg short]
    rfl

example : parseInt (ofInt (-305)) = .ok (-305) := by cbv

/-! Numerals that are read -/

theorem natOfDigits_lt {digits : List Nat} (small : ∀ d ∈ digits, d < 10) :
    natOfDigits digits < 10 ^ digits.length := by
  have continued : ∀ n, digits.foldl (fun n d => 10 * n + d) n < (n + 1) * 10 ^ digits.length := by
    induction digits with
    | nil => simp
    | cons d digits ih =>
      intro n
      obtain ⟨first, rest⟩ := List.forall_mem_cons.mp small
      have step : 10 * n + d + 1 ≤ (n + 1) * 10 := by omega
      calc digits.foldl (fun n d => 10 * n + d) (10 * n + d)
        _ < (10 * n + d + 1) * 10 ^ digits.length := ih rest _
        _ ≤ (n + 1) * 10 * 10 ^ digits.length := Nat.mul_le_mul_right _ step
        _ = (n + 1) * 10 ^ (digits.length + 1) := by rw [Nat.pow_succ', Nat.mul_assoc]
  simpa [natOfDigits] using continued 0

theorem natAbs_lt_of_parseInt? {s : String} {n : Int} (read : parseInt? s = some n) :
    n.natAbs < 10 ^ maxDigits := by
  have small (run : List Char) : ∀ d ∈ run.filterMap decimalDigit?, d < 10 := by
    intro d mem
    obtain ⟨c, -, digit⟩ := List.mem_filterMap.mp mem
    exact decimalDigit?_lt digit
  have bounded (run : List Char) (short : ¬ maxDigits < (run.filterMap decimalDigit?).length) :
      natOfDigits (run.filterMap decimalDigit?) < 10 ^ maxDigits :=
    (natOfDigits_lt (small run)).trans_le
      (Nat.pow_le_pow_right (by decide) (Nat.not_lt.mp short))
  unfold parseInt? parseInt at read
  dsimp only at read
  split at read
  · contradiction
  split at read
  · contradiction
  next short =>
  split at read
  · contradiction
  obtain rfl := Option.some.inj read
  split
  · rw [Int.natAbs_neg]
    exact bounded _ short
  · exact bounded _ short

end ImageBrowser.Text
