import ImageBrowser.Text.Percent
import Mathlib

/-!
Percent coding loses nothing: the bytes of a character are read back as that character, whatever
follows them, and so is an encoded text. What is kept of a text and what escapes it are letters,
digits, four marks and the percent sign, so that an encoded text never holds a separator.
-/

namespace ImageBrowser.Text

/-! The bytes of a character -/

theorem isTail_of_remainder (n : Nat) : isTail (0x80 + n % 0x40) = true := by
  have small : n % 0x40 < 0x40 := Nat.mod_lt n (by decide)
  simp only [isTail, Bool.and_eq_true, decide_eq_true_eq]
  omega

theorem toNat_bounds (c : Char) :
    c.toNat < 0xD800 ∨ (0xDFFF < c.toNat ∧ c.toNat < 0x110000) := c.valid

theorem decodeHead_one {c : Char} (small : c.toNat < 0x80) (rest : List Nat) :
    decodeHead c.toNat rest = (c, 0) := by
  have lead : leadLength c.toNat = 1 := if_pos small
  simp only [decodeHead, lead, Char.ofNat_toNat]

theorem decodeHead_two {c : Char} (low : 0x80 ≤ c.toNat) (high : c.toNat < 0x800)
    (rest : List Nat) :
    decodeHead (0xC0 + c.toNat / 0x40) ((0x80 + c.toNat % 0x40) :: rest) = (c, 1) := by
  have lead : leadLength (0xC0 + c.toNat / 0x40) = 2 := by
    rw [leadLength, if_neg (by omega), if_pos (by simp; omega)]
  have same : (0xC0 + c.toNat / 0x40 - 0xC0) * 0x40 + (0x80 + c.toNat % 0x40 - 0x80) = c.toNat := by
    omega
  simp only [decodeHead, lead, isTail_of_remainder, if_true, same, Char.ofNat_toNat]

theorem decodeHead_three {c : Char} (low : 0x800 ≤ c.toNat) (high : c.toNat < 0x10000)
    (rest : List Nat) :
    decodeHead (0xE0 + c.toNat / 0x1000)
      ((0x80 + c.toNat / 0x40 % 0x40) :: (0x80 + c.toNat % 0x40) :: rest) = (c, 2) := by
  have valid := toNat_bounds c
  have lead : leadLength (0xE0 + c.toNat / 0x1000) = 3 := by
    rw [leadLength, if_neg (by omega), if_neg (by simp), if_pos (by simp; omega)]
  have second : isSecond (0xE0 + c.toNat / 0x1000) (0x80 + c.toNat / 0x40 % 0x40) = true := by
    simp [isSecond, isTail_of_remainder]
    omega
  have same : (0xE0 + c.toNat / 0x1000 - 0xE0) * 0x1000 +
      (0x80 + c.toNat / 0x40 % 0x40 - 0x80) * 0x40 + (0x80 + c.toNat % 0x40 - 0x80) = c.toNat := by
    omega
  simp only [decodeHead, lead, second, isTail_of_remainder, Bool.not_true, Bool.false_eq_true,
    if_false, same, Char.ofNat_toNat]

theorem decodeHead_four {c : Char} (low : 0x10000 ≤ c.toNat) (rest : List Nat) :
    decodeHead (0xF0 + c.toNat / 0x40000)
      ((0x80 + c.toNat / 0x1000 % 0x40) :: (0x80 + c.toNat / 0x40 % 0x40) ::
        (0x80 + c.toNat % 0x40) :: rest) = (c, 3) := by
  have valid := toNat_bounds c
  have lead : leadLength (0xF0 + c.toNat / 0x40000) = 4 := by
    rw [leadLength, if_neg (by omega), if_neg (by simp; omega), if_neg (by simp),
      if_pos (by simp; omega)]
  have second : isSecond (0xF0 + c.toNat / 0x40000) (0x80 + c.toNat / 0x1000 % 0x40) = true := by
    simp [isSecond, isTail_of_remainder]
    omega
  have same : (0xF0 + c.toNat / 0x40000 - 0xF0) * 0x40000 +
      (0x80 + c.toNat / 0x1000 % 0x40 - 0x80) * 0x1000 +
      (0x80 + c.toNat / 0x40 % 0x40 - 0x80) * 0x40 + (0x80 + c.toNat % 0x40 - 0x80) = c.toNat := by
    omega
  simp only [decodeHead, lead, second, isTail_of_remainder, Bool.not_true, Bool.false_eq_true,
    if_false, same, Char.ofNat_toNat]

theorem decodeUtf8_utf8Bytes_append (c : Char) (rest : List Nat) :
    decodeUtf8 (utf8Bytes c ++ rest) = c :: decodeUtf8 rest := by
  unfold utf8Bytes
  dsimp only
  split
  · next small =>
    rw [List.singleton_append, decodeUtf8, decodeHead_one small]
    rfl
  split
  · next low high =>
    rw [List.cons_append, List.singleton_append, decodeUtf8, decodeHead_two (by omega) high]
    rfl
  split
  · next low high =>
    simp only [List.cons_append, List.nil_append]
    rw [decodeUtf8, decodeHead_three (by omega) high]
    rfl
  · next low =>
    simp only [List.cons_append, List.nil_append]
    rw [decodeUtf8, decodeHead_four (by omega)]
    rfl

theorem decodeUtf8_flatMap (cs : List Char) : decodeUtf8 (cs.flatMap utf8Bytes) = cs := by
  induction cs with
  | nil => simp [decodeUtf8]
  | cons c cs ih => rw [List.flatMap_cons, decodeUtf8_utf8Bytes_append, ih]

theorem utf8Bytes_lt {c : Char} {b : Nat} (mem : b ∈ utf8Bytes c) : b < 0x100 := by
  have valid := toNat_bounds c
  unfold utf8Bytes at mem
  dsimp only at mem
  split at mem
  · simp only [List.mem_singleton] at mem
    omega
  split at mem
  · simp only [List.mem_cons, List.not_mem_nil, or_false] at mem
    omega
  split at mem
  · simp only [List.mem_cons, List.not_mem_nil, or_false] at mem
    omega
  · simp only [List.mem_cons, List.not_mem_nil, or_false] at mem
    omega

/-! Escapes -/

theorem hexValue?_upperHex {d : Nat} (small : d < 16) : hexValue? (upperHex d) = some d := by
  revert d
  decide

theorem unescapedBytes_escapeByte {b : Nat} (byte : b < 0x100) (rest : List Char) :
    unescapedBytes (escapeByte b ++ rest) = b :: unescapedBytes rest := by
  have high := hexValue?_upperHex (show b / 16 < 16 by omega)
  have low := hexValue?_upperHex (show b % 16 < 16 by omega)
  have same : 16 * (b / 16) + b % 16 = b := Nat.div_add_mod b 16
  simp only [escapeByte, List.cons_append, List.nil_append, unescapedBytes, high, low, same]

theorem unescapedBytes_escapeBytes {bs : List Nat} (bytes : ∀ b ∈ bs, b < 0x100)
    (rest : List Char) :
    unescapedBytes (bs.flatMap escapeByte ++ rest) = bs ++ unescapedBytes rest := by
  induction bs with
  | nil => rfl
  | cons b bs ih =>
    have tail : ∀ x ∈ bs, x < 0x100 := fun x mem => bytes x (List.mem_cons_of_mem b mem)
    rw [List.flatMap_cons, List.append_assoc,
      unescapedBytes_escapeByte (bytes b List.mem_cons_self), ih tail, List.cons_append]

theorem unescapedBytes_cons_of_ne {c : Char} (other : c ≠ '%') (rest : List Char) :
    unescapedBytes (c :: rest) = utf8Bytes c ++ unescapedBytes rest := by
  rw [unescapedBytes]
  intro a b tail same
  exact absurd same other

theorem ne_percent_of_isUnreserved {c : Char} (kept : isUnreserved c = true) : c ≠ '%' := by
  rintro rfl
  exact absurd kept (by decide)

theorem unescapedBytes_escapeChar (c : Char) (rest : List Char) :
    unescapedBytes (escapeChar c ++ rest) = utf8Bytes c ++ unescapedBytes rest := by
  unfold escapeChar
  split
  · next kept =>
    exact unescapedBytes_cons_of_ne (ne_percent_of_isUnreserved kept) rest
  · exact unescapedBytes_escapeBytes (fun b => utf8Bytes_lt) rest

theorem unescapedBytes_flatMap (cs : List Char) :
    unescapedBytes (cs.flatMap escapeChar) = cs.flatMap utf8Bytes := by
  induction cs with
  | nil => rfl
  | cons c cs ih => rw [List.flatMap_cons, unescapedBytes_escapeChar, ih, List.flatMap_cons]

theorem percentDecodeChars_percentEncode (s : String) :
    percentDecodeChars (percentEncode s).toList = s.toList := by
  rw [percentDecodeChars, percentEncode, String.toList_ofList, unescapedBytes_flatMap,
    decodeUtf8_flatMap]

example : percentEncode "a/b é" = "a%2Fb%20%C3%A9" := by decide +kernel

theorem flatMap_escapeChar_of_isUnreserved {cs : List Char} (kept : cs.all isUnreserved = true) :
    cs.flatMap escapeChar = cs := by
  induction cs with
  | nil => rfl
  | cons c cs ih =>
    rw [List.all_cons, Bool.and_eq_true] at kept
    rw [List.flatMap_cons, escapeChar, if_pos kept.1, ih kept.2, List.singleton_append]

theorem percentEncode_of_isUnreserved {s : String} (kept : s.toList.all isUnreserved = true) :
    percentEncode s = s := by
  rw [percentEncode, flatMap_escapeChar_of_isUnreserved kept, String.ofList_toList]

theorem percentDecodeChars_of_isUnreserved {cs : List Char} (kept : cs.all isUnreserved = true) :
    percentDecodeChars cs = cs := by
  have same : percentEncode (String.ofList cs) = String.ofList cs :=
    percentEncode_of_isUnreserved (by rwa [String.toList_ofList])
  have decoded := percentDecodeChars_percentEncode (String.ofList cs)
  rwa [same, String.toList_ofList] at decoded

/-! The characters of an encoded text -/

def isEncoded (c : Char) : Bool := isUnreserved c || c = '%'

theorem isEncoded_upperHex {d : Nat} (small : d < 16) : isEncoded (upperHex d) = true := by
  revert d
  decide

theorem isEncoded_escapeByte {b : Nat} (byte : b < 0x100) : (escapeByte b).all isEncoded = true := by
  have high := isEncoded_upperHex (show b / 16 < 16 by omega)
  have low := isEncoded_upperHex (show b % 16 < 16 by omega)
  simp only [escapeByte, List.all_cons, List.all_nil, high, low]
  rfl

theorem isEncoded_escapeChar (c : Char) : (escapeChar c).all isEncoded = true := by
  unfold escapeChar
  split
  · next kept => simp [isEncoded, kept]
  · rw [List.all_flatMap, List.all_eq_true]
    intro b mem
    exact isEncoded_escapeByte (utf8Bytes_lt mem)

theorem isEncoded_percentEncode (s : String) : (percentEncode s).toList.all isEncoded = true := by
  rw [percentEncode, String.toList_ofList, List.all_flatMap, List.all_eq_true]
  intro c _
  exact isEncoded_escapeChar c

theorem toNat_of_isUnreserved {c : Char} (kept : isUnreserved c = true) :
    0x20 < c.toNat ∧ c.toNat < 0x80 := by
  simp only [isUnreserved, Char.isAlphanum, Char.isAlpha, Char.isUpper, Char.isLower,
    Char.isDigit, Bool.or_eq_true, Bool.and_eq_true, decide_eq_true_eq, ge_iff_le,
    UInt32.le_iff_toNat_le] at kept
  rcases kept with ((((letter | digit) | rfl) | rfl) | rfl) | rfl
  · change (0x41 ≤ c.toNat ∧ c.toNat ≤ 0x5A) ∨ (0x61 ≤ c.toNat ∧ c.toNat ≤ 0x7A) at letter
    omega
  · change 0x30 ≤ c.toNat ∧ c.toNat ≤ 0x39 at digit
    omega
  all_goals decide

theorem toNat_of_isEncoded {c : Char} (encoded : isEncoded c = true) :
    0x20 < c.toNat ∧ c.toNat < 0x80 := by
  rcases Bool.or_eq_true_iff.mp encoded with kept | sign
  · exact toNat_of_isUnreserved kept
  · rw [of_decide_eq_true sign]
    decide

theorem notMem_percentEncode {mark : Char} (escaped : isEncoded mark = false) (s : String) :
    mark ∉ (percentEncode s).toList := by
  intro mem
  have encoded := List.all_eq_true.mp (isEncoded_percentEncode s) mark mem
  rw [escaped] at encoded
  contradiction

end ImageBrowser.Text
