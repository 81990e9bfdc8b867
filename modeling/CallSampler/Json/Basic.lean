import CallSampler.Entries

/-!
# JSON documents

A document keeps the entries of its objects in order, and integers apart from floats: the text `1`
and the text `1.0` are different samples.
-/

namespace CallSampler

/-- A JSON number. An integer is one whose literal has neither point nor exponent and fits 64
bits. -/
inductive Number where
  | integer (value : Int)
  | float (value : Float)
deriving DecidableEq

/-- One more than the greatest integer of 64 bits without a sign. -/
def wordLimit : Nat := 18446744073709551616

namespace Word

theorem toNat_lt (n : UInt64) : n.toNat < wordLimit := n.toNat_lt

/-- After the greatest word comes zero. -/
theorem toNat_add_one (n : UInt64) : (n + 1).toNat = (n.toNat + 1) % wordLimit :=
  UInt64.toNat_add n 1

theorem add_one_eq_zero_iff {n : UInt64} : n + 1 = 0 ↔ n.toNat + 1 = wordLimit := by
  have hlt := toNat_lt n
  rw [← UInt64.toNat_inj, toNat_add_one]
  constructor
  · intro h
    refine Decidable.byContradiction fun hne => ?_
    rw [Nat.mod_eq_of_lt (by omega)] at h
    cases h
  · intro h
    rw [h, Nat.mod_self]
    rfl

theorem add_one_ne_zero_iff {n : UInt64} : n + 1 ≠ 0 ↔ n.toNat + 1 < wordLimit := by
  have hlt := toNat_lt n
  rw [ne_eq, add_one_eq_zero_iff]
  omega

/-- What is at most a word that is not the greatest is not the greatest either. -/
theorem add_one_ne_zero_of_le {n m : UInt64} (h : n ≤ m) (hm : m + 1 ≠ 0) : n + 1 ≠ 0 := by
  have hle := UInt64.le_iff_toNat_le.mp h
  rw [add_one_ne_zero_iff] at hm ⊢
  omega

/-- Any other word is followed by the one after it. -/
theorem toNat_add_one_of_ne {n : UInt64} (h : n + 1 ≠ 0) : (n + 1).toNat = n.toNat + 1 := by
  rw [toNat_add_one, Nat.mod_eq_of_lt (add_one_ne_zero_iff.mp h)]

end Word

inductive Json where
  | null
  | bool (value : Bool)
  | number (value : Number)
  | string (value : String)
  | array (items : List Json)
  | object (entries : List (String × Json))
deriving Inhabited

namespace Json

/-- The coarse kind of a document, which is what a reader of samples infers types from. -/
inductive Kind where
  | null
  | bool
  | int
  | float
  | str
  | list
  | dict
deriving DecidableEq, Repr

def Kind.name : Kind → String
  | .null => "null"
  | .bool => "bool"
  | .int => "int"
  | .float => "float"
  | .str => "str"
  | .list => "list"
  | .dict => "dict"

def kind : Json → Kind
  | .null => .null
  | .bool _ => .bool
  | .number (.integer _) => .int
  | .number (.float _) => .float
  | .string _ => .str
  | .array _ => .list
  | .object _ => .dict

def ofNat (n : Nat) : Json := .number (.integer n)

def field? (name : String) : Json → Option Json
  | .object entries => Entries.get? name entries
  | _ => none

mutual

/-- How many arrays and objects are nested in a document: none in a scalar. -/
def nesting : Json → Nat
  | .array items => nestingItems items + 1
  | .object entries => nestingEntries entries + 1
  | _ => 0

/-- The deepest nesting among the items of an array. -/
def nestingItems : List Json → Nat
  | [] => 0
  | item :: rest => max item.nesting (nestingItems rest)

/-- The deepest nesting among the values of an object. -/
def nestingEntries : List (String × Json) → Nat
  | [] => 0
  | (_, value) :: rest => max value.nesting (nestingEntries rest)

end

end Json

end CallSampler
