import ImageBrowser.Magnitude

/-!
The values that a client sends as arguments and that a stone hands back as plain data. Numbers
and truth values compare with each other by size, and the fields of objects without their order.
-/

namespace ImageBrowser

inductive Value
  | null
  | flag (b : Bool)
  | whole (n : Int)
  | fraction (x : Floating)
  | text (s : String)
  | list (items : List Value)
  | object (fields : List (String × Value))
  deriving Repr

namespace Value

instance : Inhabited Value := ⟨null⟩

mutual

def eqb : Value → Value → Bool
  | null, null => true
  | flag a, flag b => a = b
  | whole a, whole b => a = b
  | fraction a, fraction b => a = b
  | text a, text b => a = b
  | list a, list b => eqbItems a b
  | object a, object b => eqbFields a b
  | _, _ => false

def eqbItems : List Value → List Value → Bool
  | [], [] => true
  | a :: as, b :: bs => eqb a b && eqbItems as bs
  | _, _ => false

def eqbFields : List (String × Value) → List (String × Value) → Bool
  | [], [] => true
  | (k, a) :: as, (l, b) :: bs => decide (k = l) && eqb a b && eqbFields as bs
  | _, _ => false

end

mutual

theorem eqb_iff : (a b : Value) → (eqb a b = true ↔ a = b)
  | null, b => by cases b <;> simp [eqb]
  | flag _, b => by cases b <;> simp [eqb]
  | whole _, b => by cases b <;> simp [eqb]
  | fraction _, b => by cases b <;> simp [eqb]
  | text _, b => by cases b <;> simp [eqb]
  | list as, b => by cases b <;> simp [eqb, eqbItems_iff as]
  | object as, b => by cases b <;> simp [eqb, eqbFields_iff as]

theorem eqbItems_iff : (as bs : List Value) → (eqbItems as bs = true ↔ as = bs)
  | [], bs => by cases bs <;> simp [eqbItems]
  | a :: as, bs => by cases bs <;> simp [eqbItems, eqb_iff a, eqbItems_iff as]

theorem eqbFields_iff : (as bs : List (String × Value)) → (eqbFields as bs = true ↔ as = bs)
  | [], bs => by cases bs <;> simp [eqbFields]
  | (k, a) :: as, bs => by
    cases bs with
    | nil => simp [eqbFields]
    | cons b bs => obtain ⟨l, b⟩ := b; simp [eqbFields, eqb_iff a, eqbFields_iff as]

end

instance : DecidableEq Value := fun a b => decidable_of_iff (eqb a b = true) (eqb_iff a b)

def texts (names : List String) : Value := list (names.map text)

def typeName : Value → String
  | null => "NoneType"
  | flag _ => "bool"
  | whole _ => "int"
  | fraction _ => "float"
  | text _ => "str"
  | list _ => "list"
  | object _ => "dict"

def isTruthy : Value → Bool
  | null => false
  | flag b => b
  | whole n => n ≠ 0
  | fraction x => !x.isZero
  | text s => s ≠ ""
  | list items => !items.isEmpty
  | object fields => !fields.isEmpty

mutual

def quoted : Value → String
  | null => "None"
  | flag b => if b then "True" else "False"
  | whole n => Text.ofInt n
  | fraction x => x.shown
  | text s => Text.quoted s
  | list items => "[" ++ ", ".intercalate (quotedItems items) ++ "]"
  | object fields => "\x7b" ++ ", ".intercalate (quotedFields fields) ++ "\x7d"

def quotedItems : List Value → List String
  | [] => []
  | v :: vs => quoted v :: quotedItems vs

def quotedFields : List (String × Value) → List String
  | [] => []
  | (k, v) :: fs => (Text.quoted k ++ ": " ++ quoted v) :: quotedFields fs

end

def shown : Value → String
  | text s => s
  | v => quoted v

mutual

/-- Whether every number in a value has a text; `quoted` and `shown` put in the decimal one. -/
def isWritable : Value → Bool
  | whole n => Text.isWritable n
  | list items => areWritable items
  | object fields => haveWritable fields
  | _ => true

def areWritable : List Value → Bool
  | [] => true
  | v :: vs => isWritable v && areWritable vs

def haveWritable : List (String × Value) → Bool
  | [] => true
  | (_, v) :: fs => isWritable v && haveWritable fs

end

def fieldOrder (a b : String × Value) : Bool := decide (a.1 ≤ b.1)

mutual

/-- One form for all values that compare equal: numbers of the same size become the same whole
number, and the fields of an object are put in the order of their names. -/
def canonical : Value → Value
  | null => null
  | flag b => whole (if b then 1 else 0)
  | whole n => whole n
  | fraction x => match x.whole? with
    | some n => whole n
    | none => fraction x
  | text s => text s
  | list items => list (canonicalItems items)
  | object fields => object ((canonicalFields fields).mergeSort fieldOrder)

def canonicalItems : List Value → List Value
  | [] => []
  | v :: vs => canonical v :: canonicalItems vs

def canonicalFields : List (String × Value) → List (String × Value)
  | [] => []
  | (k, v) :: fs => (k, canonical v) :: canonicalFields fs

end

def same (a b : Value) : Bool := a.canonical = b.canonical

/-- What is no number is the same as itself, and yet equal to nothing. -/
def equals (a b : Value) : Bool := a ≠ fraction .undefined && a.same b

def isKey : Value → Bool
  | list _ => false
  | object _ => false
  | _ => true

def text? : Value → Option String
  | text s => some s
  | _ => none

def magnitude? : Value → Option Magnitude
  | flag b => some (Magnitude.ofInt (if b then 1 else 0))
  | whole n => some (Magnitude.ofInt n)
  | fraction x => some (Magnitude.ofFloating x)
  | _ => none

def isPositive? (v : Value) : Option Bool :=
  v.magnitude?.map fun m => (Magnitude.ofInt 0).isBelow m

def items? : Value → Option (List Value)
  | list items => some items
  | text s => some (s.toList.map fun c => text c.toString)
  | object fields => some (fields.map fun f => text f.1)
  | _ => none

end Value

end ImageBrowser
