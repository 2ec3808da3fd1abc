import ImageBrowser.Locator.Basic
import ImageBrowser.Proofs.Text.Numerals
import ImageBrowser.Proofs.Text.PercentCoding

/-!
A locator leads back to the document that it was written for. Its parts are encoded, so that none
of them holds a mark that divides a locator; a locator is therefore split at the places where it
was put together, and every part is decoded only after that.
-/

namespace ImageBrowser

open Text

namespace Location

def classPath (l : Location) (index : Value) : ClassPath :=
  ⟨⟨.text l.sessionId, index, .text l.dictionaryName⟩, .text l.className⟩

def node (l : Location) (index : Value) : Node :=
  match l.document with
  | .definition => .definition (l.classPath index)
  | .comment => .comment (l.classPath index)
  | .method isMeta category selector environment =>
    .method ⟨l.classPath index, .flag isMeta, .whole environment⟩ (.text category) (.text selector)

/-- Environments are counted from zero, and their numerals are not too long to be read. -/
def IsWritable (l : Location) : Prop :=
  match l.document with
  | .method _ _ _ environment => 0 ≤ environment ∧ environment.natAbs < 10 ^ maxDigits
  | _ => True

end Location

namespace Locator

def pathOf (parts : List String) : List Char :=
  (parts.map fun p => (percentEncode p).toList).flatMap ('/' :: ·)

def isLocatorChar (c : Char) : Bool :=
  isEncoded c || c = ':' || c = '/' || c = '?' || c = '='

/-! Splitting a locator -/

theorem toNat_of_isLocatorChar {c : Char} (holds : isLocatorChar c = true) : 0x20 < c.toNat := by
  simp only [isLocatorChar, Bool.or_eq_true, decide_eq_true_eq] at holds
  rcases holds with (((encoded | rfl) | rfl) | rfl) | rfl
  · exact (toNat_of_isEncoded encoded).1
  all_goals decide

theorem cleaned_of_isLocatorChar {s : String} (holds : s.toList.all isLocatorChar = true) :
    cleaned s = s.toList := by
  have visible (c : Char) (mem : c ∈ s.toList) : 0x20 < c.toNat :=
    toNat_of_isLocatorChar (List.all_eq_true.mp holds c mem)
  have front : s.toList.dropWhile (fun c => c.toNat ≤ 0x20) = s.toList := by
    rw [List.dropWhile_eq_self_iff]
    intro inside
    simpa using visible _ (List.getElem_mem inside)
  rw [cleaned, front, List.filter_eq_self]
  intro c mem
  have high := visible c mem
  have tab : c ≠ '\t' := by rintro rfl; exact absurd high (by decide)
  have feed : c ≠ '\n' := by rintro rfl; exact absurd high (by decide)
  have carriage : c ≠ '\r' := by rintro rfl; exact absurd high (by decide)
  simp [tab, feed, carriage]

theorem splitScheme_scheme (rest : List Char) :
    splitScheme (scheme.toList ++ ':' :: rest) = (scheme.toList, rest) := by
  have absent : ':' ∉ scheme.toList := by decide +kernel
  have isOne : isScheme scheme.toList = true := by decide +kernel
  have lower : scheme.toList.map Char.toLower = scheme.toList := by decide +kernel
  rw [splitScheme, cut_append_cons absent]
  simp only [isOne, if_true, lower]

theorem splitAuthority_append {host : List Char} (inside : host.all (!endsAuthority ·) = true)
    (rest : List Char) :
    splitAuthority ('/' :: '/' :: (host ++ '/' :: rest)) = (host, '/' :: rest) := by
  have all : ∀ c ∈ host, (!endsAuthority c) = true := List.all_eq_true.mp inside
  rw [splitAuthority, List.takeWhile_append_of_pos all, List.dropWhile_append_of_pos all]
  simp [endsAuthority]

theorem endsAuthority_of_isEncoded {c : Char} (encoded : isEncoded c = true) :
    endsAuthority c = false := by
  by_contra ends
  simp only [endsAuthority, Bool.or_eq_true, decide_eq_true_eq, Bool.not_eq_false] at ends
  rcases ends with (rfl | rfl) | rfl
  all_goals exact absurd encoded (by decide)

theorem checkMarks_of_isEncoded {host : List Char} (encoded : host.all isEncoded = true) :
    checkMarks host = .ok () := by
  have high : ∀ n ∈ lookalikes, 0x80 ≤ n := by decide
  have none : (host.any fun c => lookalikes.contains c.toNat) = false := by
    rw [List.any_eq_false]
    intro c mem
    have low := (toNat_of_isEncoded (List.all_eq_true.mp encoded c mem)).2
    intro found
    have := high c.toNat (List.contains_iff_mem.mp found)
    omega
  rw [checkMarks, none]
  rfl

theorem checkBrackets_percentEncode (s : String) :
    checkBrackets (percentEncode s).toList = .ok () := by
  have opening : '[' ∉ (percentEncode s).toList := notMem_percentEncode (by decide) s
  have closing : ']' ∉ (percentEncode s).toList := notMem_percentEncode (by decide) s
  simp [checkBrackets, opening, closing]

theorem notMem_pathOf {mark : Char} (escaped : isEncoded mark = false) (other : mark ≠ '/')
    (parts : List String) : mark ∉ pathOf parts := by
  intro mem
  obtain ⟨part, isPart, mem⟩ := List.mem_flatMap.mp mem
  obtain ⟨p, _, rfl⟩ := List.mem_map.mp isPart
  rcases List.mem_cons.mp mem with same | inside
  · exact other same
  · exact notMem_percentEncode escaped p inside

def querySuffix : Option (List Char) → List Char
  | none => []
  | some query => '?' :: query

def isQueryChar (c : Char) : Bool := isEncoded c || c = '='

def written (session : String) (parts : List String) (query : Option (List Char)) : List Char :=
  scheme.toList ++ ':' :: '/' :: '/' ::
    ((percentEncode session).toList ++ (pathOf parts ++ querySuffix query))

theorem isLocatorChar_written {session : String} {parts : List String}
    {query : Option (List Char)} (plain : ∀ q ∈ query, q.all isQueryChar = true) :
    (written session parts query).all isLocatorChar = true := by
  have kept {c : Char} (encoded : isEncoded c = true) : isLocatorChar c = true := by
    simp [isLocatorChar, encoded]
  have encodes (t : String) : (percentEncode t).toList.all isLocatorChar = true := by
    rw [List.all_eq_true]
    intro c mem
    exact kept (List.all_eq_true.mp (isEncoded_percentEncode t) c mem)
  have front : scheme.toList.all isLocatorChar = true := by decide +kernel
  have path : (pathOf parts).all isLocatorChar = true := by
    rw [pathOf, List.all_flatMap, List.all_map, List.all_eq_true]
    intro p _
    rw [Function.comp_apply, List.all_cons, encodes]
    rfl
  have suffix : (querySuffix query).all isLocatorChar = true := by
    cases query with
    | none => rfl
    | some q =>
      rw [querySuffix, List.all_cons, Bool.and_eq_true, List.all_eq_true]
      refine ⟨rfl, fun c mem => ?_⟩
      rcases Bool.or_eq_true_iff.mp (List.all_eq_true.mp (plain q rfl) c mem) with encoded | equals
      · exact kept encoded
      · simp [isLocatorChar, of_decide_eq_true equals]
  have marks : isLocatorChar ':' = true ∧ isLocatorChar '/' = true := by decide
  simp only [written, List.all_append, List.all_cons, front, marks, encodes, path, suffix,
    Bool.and_self]

theorem cut_path {parts : List String} {query : Option (List Char)}
    (plain : ∀ q ∈ query, q.all isQueryChar = true) :
    cut '#' (pathOf parts ++ querySuffix query) = (pathOf parts ++ querySuffix query, none) ∧
      cut '?' (pathOf parts ++ querySuffix query) = (pathOf parts, query) := by
  have noMark : '?' ∉ pathOf parts := notMem_pathOf (by decide) (by decide) parts
  have noHash : '#' ∉ pathOf parts := notMem_pathOf (by decide) (by decide) parts
  cases query with
  | none =>
    rw [querySuffix, List.append_nil]
    exact ⟨cut_of_absent noHash, cut_of_absent noMark⟩
  | some q =>
    refine ⟨cut_of_absent ?_, cut_append_cons noMark q⟩
    intro mem
    rcases List.mem_append.mp mem with path | suffix
    · exact noHash path
    · rcases List.mem_cons.mp suffix with same | inside
      · exact absurd same (by decide)
      · exact absurd (List.all_eq_true.mp (plain q rfl) _ inside) (by decide)

theorem splitUrl_written {s session part : String} {parts : List String}
    {query : Option (List Char)} (plain : ∀ q ∈ query, q.all isQueryChar = true)
    (text : s.toList = written session (part :: parts) query) :
    splitUrl s = .ok ⟨scheme.toList, (percentEncode session).toList, pathOf (part :: parts),
      query.getD []⟩ := by
  have encoded := isEncoded_percentEncode session
  have inside : (percentEncode session).toList.all (!endsAuthority ·) = true := by
    rw [List.all_eq_true]
    intro c mem
    rw [endsAuthority_of_isEncoded (List.all_eq_true.mp encoded c mem)]
    rfl
  have clean : cleaned s = written session (part :: parts) query := by
    rw [cleaned_of_isLocatorChar (by rw [text]; exact isLocatorChar_written plain), text]
  have authority : splitAuthority ('/' :: '/' ::
      ((percentEncode session).toList ++ (pathOf (part :: parts) ++ querySuffix query))) =
      ((percentEncode session).toList, pathOf (part :: parts) ++ querySuffix query) :=
    splitAuthority_append inside _
  have cuts : cut '#' (pathOf (part :: parts) ++ querySuffix query) =
      (pathOf (part :: parts) ++ querySuffix query, none) ∧
      cut '?' (pathOf (part :: parts) ++ querySuffix query) = (pathOf (part :: parts), query) :=
    cut_path plain
  obtain ⟨hash, mark⟩ := cuts
  unfold splitUrl
  rw [clean, written, splitScheme_scheme]
  dsimp only
  rw [authority]
  dsimp only
  rw [checkBrackets_percentEncode, hash]
  dsimp only
  rw [mark, checkMarks_of_isEncoded encoded]
  rfl

/-! Decoding the parts -/

theorem segments_pathOf (parts : List String) :
    (pieces '/' (pathOf parts)).tail.map (fun p => String.ofList (percentDecodeChars p)) =
      parts := by
  have apart : ∀ p ∈ parts.map fun p => (percentEncode p).toList, '/' ∉ p := by
    intro p mem
    obtain ⟨part, _, rfl⟩ := List.mem_map.mp mem
    exact notMem_percentEncode (by decide) part
  have none : '/' ∉ ([] : List Char) := List.not_mem_nil
  have split := pieces_append_flatMap none apart
  rw [List.nil_append] at split
  rw [pathOf, split, List.tail_cons, List.map_map]
  refine (List.map_congr_left fun p _ => ?_).trans (List.map_id parts)
  rw [Function.comp_apply, percentDecodeChars_percentEncode, String.ofList_toList, id]

theorem isUnreserved_digitChar {d : Nat} (small : d < 10) : isUnreserved (digitChar d) = true := by
  revert d
  decide

theorem isUnreserved_intDigits {n : Int} (natural : 0 ≤ n) :
    (intDigits n).all isUnreserved = true := by
  rw [intDigits, if_neg (by omega), List.all_eq_true]
  intro c mem
  obtain ⟨d, small, rfl⟩ := mem_natDigits mem
  exact isUnreserved_digitChar small

theorem queryDecodeChars_of_isUnreserved {cs : List Char} (kept : cs.all isUnreserved = true) :
    queryDecodeChars cs = cs := by
  have plain : (cs.map fun c => if c = '+' then ' ' else c) = cs := by
    refine (List.map_congr_left fun c mem => ?_).trans (List.map_id cs)
    have plus : c ≠ '+' := by
      rintro rfl
      exact absurd (List.all_eq_true.mp kept _ mem) (by decide)
    rw [if_neg plus, id]
  rw [queryDecodeChars, plain, percentDecodeChars_of_isUnreserved kept]

def environmentQuery (environment : Int) : Option (List Char) :=
  if 0 < environment then some ("env".toList ++ '=' :: intDigits environment) else none

theorem environmentIn_environmentQuery {n : Int} (natural : 0 ≤ n)
    (short : n.natAbs < 10 ^ maxDigits) :
    environmentIn ((environmentQuery n).getD []) = .ok n := by
  unfold environmentQuery
  split
  · have kept := isUnreserved_intDigits natural
    have name : queryDecodeChars "env".toList = "env".toList :=
      queryDecodeChars_of_isUnreserved (by decide +kernel)
    have absent : '&' ∉ "env".toList ++ '=' :: intDigits n := by
      intro mem
      rcases List.mem_append.mp mem with front | back
      · exact absurd front (by decide +kernel)
      · rcases List.mem_cons.mp back with same | digit
        · exact absurd same (by decide)
        · exact absurd (List.all_eq_true.mp kept _ digit) (by decide)
    have field : queryField? ("env".toList ++ '=' :: intDigits n) =
        some ("env".toList, intDigits n) := by
      rw [queryField?, cut_append_cons (by decide +kernel)]
      have value := queryDecodeChars_of_isUnreserved kept
      cases digits : intDigits n with
      | nil => exact absurd digits (intDigits_ne_nil n)
      | cons c cs =>
        rw [digits] at value
        simp only [name, value]
    have read : parseInt (String.ofList (intDigits n)) = .ok n := parseInt_ofInt short
    rw [Option.getD_some, environmentIn, queryFields, pieces_of_absent absent,
      List.filterMap_cons, field, List.filterMap_nil]
    simp only [List.lookup_cons, BEq.rfl, Option.getD_some, read]
    rfl
  · obtain rfl : n = 0 := by omega
    cbv

/-! Writing and reading -/

def lastParts : Document → List String
  | .definition => [NodeKind.definition.tag]
  | .comment => [NodeKind.comment.tag]
  | .method isMeta category selector _ => [sideName isMeta, category, selector]

def queryOf : Document → Option (List Char)
  | .method _ _ _ environment => environmentQuery environment
  | _ => none

theorem toList_ofClass (l : Location) (index : Value) (last : List String) :
    (ofClass (l.classPath index) (last.map percentEncode)).toList =
      written l.sessionId (l.dictionaryName :: l.className :: last) none := by
  have joined (parts : List (List Char)) (first : List Char) :
      ['/'].intercalate (first :: parts) = first ++ parts.flatMap ('/' :: ·) := by
    induction parts generalizing first with
    | nil => simp
    | cons p parts ih => rw [List.intercalate_cons_cons, ih p, List.flatMap_cons]; simp
  have parts : ([encoded (l.classPath index).dictionary.sessionId,
      encoded (l.classPath index).dictionary.name, encoded (l.classPath index).className] ++
        last.map percentEncode).map String.toList =
      (percentEncode l.sessionId).toList :: (l.dictionaryName :: l.className :: last).map
        fun p => (percentEncode p).toList := by
    simp [encoded, Value.shown, Location.classPath]
  rw [ofClass, String.toList_append, String.toList_append, String.toList_intercalate, parts]
  rw [show "/".toList = ['/'] by decide +kernel, joined]
  simp [written, pathOf, querySuffix]

theorem asPositive_whole (n : Int) : (Value.whole n).asPositive = .ok (decide (0 < n)) := by
  simp [Value.asPositive, Value.isPositive?, Value.magnitude?, Magnitude.ofInt,
    Magnitude.isBelow]

theorem percentEncode_sideName (isMeta : Bool) :
    percentEncode (sideName isMeta) = sideName isMeta := by
  cases isMeta
  all_goals exact percentEncode_of_isUnreserved (by decide +kernel)

theorem ofMethod_text (l : Location) (index : Value) (isMeta : Bool) (category selector : String)
    (environment : Int) :
    ∃ s, ofMethod ⟨l.classPath index, .flag isMeta, .whole environment⟩ (.text category)
        (.text selector) = .ok s ∧
      s.toList = written l.sessionId
        (l.dictionaryName :: l.className :: [sideName isMeta, category, selector])
        (environmentQuery environment) := by
  have path := toList_ofClass l index [sideName isMeta, category, selector]
  simp only [List.map_cons, List.map_nil, percentEncode_sideName] at path
  have query : (Value.whole environment).shown = ofInt environment := by
    simp [Value.shown, Value.quoted]
  unfold ofMethod
  simp only [asPositive_whole]
  by_cases positive : 0 < environment
  · refine ⟨_, if_pos (decide_eq_true positive), ?_⟩
    rw [String.toList_append, String.toList_append, query, environmentQuery, if_pos positive]
    refine (congrArg (· ++ "?env=".toList ++ (ofInt environment).toList) path).trans ?_
    simp [written, querySuffix, ofInt]
  · refine ⟨_, if_neg (by simpa using positive), ?_⟩
    rw [environmentQuery, if_neg positive]
    exact path

theorem ofNode_node (l : Location) (index : Value) :
    ∃ s, ofNode (l.node index) = .ok (some s) ∧
      s.toList = written l.sessionId (l.dictionaryName :: l.className :: lastParts l.document)
        (queryOf l.document) := by
  have tag {k : NodeKind} (plain : k.tag.toList.all isUnreserved = true) :
      (ofClass (l.classPath index) [k.tag]).toList =
        written l.sessionId (l.dictionaryName :: l.className :: [k.tag]) none := by
    rw [← toList_ofClass l index [k.tag], List.map_singleton, percentEncode_of_isUnreserved plain]
  obtain ⟨sessionId, dictionaryName, className, document⟩ := l
  cases document with
  | definition => exact ⟨_, rfl, tag (by decide +kernel)⟩
  | comment => exact ⟨_, rfl, tag (by decide +kernel)⟩
  | method isMeta category selector environment =>
    obtain ⟨s, made, text⟩ := ofMethod_text ⟨sessionId, dictionaryName, className, _⟩ index isMeta
      category selector environment
    exact ⟨s, by rw [Location.node, ofNode, made]; rfl, text⟩

theorem isQueryChar_queryOf {l : Location} (writable : l.IsWritable) :
    ∀ q ∈ queryOf l.document, q.all isQueryChar = true := by
  intro q mem
  obtain ⟨sessionId, dictionaryName, className, document⟩ := l
  cases document with
  | definition | comment => cases mem
  | method isMeta category selector environment =>
    change q ∈ environmentQuery environment at mem
    unfold environmentQuery at mem
    split at mem
    · obtain rfl := Option.some.inj mem
      have digits := List.all_eq_true.mp (isUnreserved_intDigits writable.1)
      have name : "env".toList.all isQueryChar = true := by decide +kernel
      rw [List.all_append, name, List.all_cons, Bool.true_and, Bool.and_eq_true,
        List.all_eq_true]
      refine ⟨rfl, fun c digit => ?_⟩
      simp [isQueryChar, isEncoded, digits c digit]
    · cases mem

theorem sideName_eq_true_iff {isMeta : Bool} : sideName isMeta = sideName true ↔ isMeta = true := by
  cases isMeta <;> decide

theorem parse_written {l : Location} {s : String} (writable : l.IsWritable)
    (text : s.toList = written l.sessionId
      (l.dictionaryName :: l.className :: lastParts l.document) (queryOf l.document)) :
    parse s = .ok l := by
  have split := splitUrl_written (isQueryChar_queryOf writable) text
  have session : String.ofList (percentDecodeChars (percentEncode l.sessionId).toList) =
      l.sessionId := by
    rw [percentDecodeChars_percentEncode, String.ofList_toList]
  have segments := segments_pathOf (l.dictionaryName :: l.className :: lastParts l.document)
  unfold parse
  rw [split]
  simp only [bind, Except.bind, session, segments, ne_eq, not_true, if_false]
  obtain ⟨sessionId, dictionaryName, className, document⟩ := l
  cases document with
  | definition => rfl
  | comment => rfl
  | method isMeta category selector environment =>
    have query := environmentIn_environmentQuery writable.1 writable.2
    have isSide : isSideName (sideName isMeta) = true := by
      cases isMeta <;> decide
    simp only [lastParts, queryOf, isSide, if_true, query, sideName_eq_true_iff,
      Bool.decide_eq_true]
    rfl

/-- A document's locator leads back to it, whatever the texts in it are, and therefore belongs to no
other document. -/
theorem locator_leads_back {l : Location} (writable : l.IsWritable) (index : Value) :
    ∃ s, ofNode (l.node index) = .ok (some s) ∧ parse s = .ok l ∧
      ∀ {l' index'}, l'.IsWritable → ofNode (l'.node index') = .ok (some s) → l' = l := by
  obtain ⟨s, made, text⟩ := ofNode_node l index
  refine ⟨s, made, parse_written writable text, ?_⟩
  intro l' index' writable' made'
  obtain ⟨s', again, text'⟩ := ofNode_node l' index'
  obtain rfl : s' = s := by
    rw [made'] at again
    exact (Option.some.inj (Except.ok.inj again)).symm
  have same := (parse_written writable' text').symm.trans (parse_written writable text)
  exact Except.ok.inj same

theorem locator_leads_back_from_marks :
    let l : Location := ⟨"", "a/b", "?#%", .method true "+ é" "" 12⟩
    l.IsWritable ∧
      ofNode (l.node (.whole 1)) =
        .ok (some "gemstone:///a%2Fb/%3F%23%25/class/%2B%20%C3%A9/?env=12") ∧
      parse "gemstone:///a%2Fb/%3F%23%25/class/%2B%20%C3%A9/?env=12" = .ok l := by
  intro l
  have short : 12 < 10 ^ maxDigits :=
    Nat.lt_of_lt_of_le (by decide : 12 < 10 ^ 2) (Nat.pow_le_pow_right (by decide) (by decide))
  have writable : l.IsWritable := ⟨by decide, short⟩
  have made : ofNode (l.node (.whole 1)) =
      .ok (some "gemstone:///a%2Fb/%3F%23%25/class/%2B%20%C3%A9/?env=12") := by cbv
  obtain ⟨s, again, leads, _⟩ := locator_leads_back writable (.whole 1)
  obtain rfl := Option.some.inj (Except.ok.inj (made.symm.trans again))
  exact ⟨writable, made, leads⟩

end Locator

end ImageBrowser
