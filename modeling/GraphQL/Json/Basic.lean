import GraphQL.Numeral.Double

/-!
# JSON values

The values that requests bring, resolvers return and responses carry. Objects keep their members
in order. `Object.insert` writes a member: a key that is new goes last, a key that is there keeps
its place and takes the new value, so that an object built by insertion has distinct keys.
-/

set_option autoImplicit false

namespace GraphQL

namespace Json

/-- A JSON number: an integer, or a number with a fraction or an exponent. -/
inductive Number where
  | int (i : Int)
  | float (d : Double)
  deriving DecidableEq, Repr

namespace Number

/-- The double nearest to a number. -/
def toDouble : Number → Double
  | .int i => .nearest i
  | .float d => d

/-- The integer that a number equals, if it is whole. -/
def toInt? : Number → Option Int
  | .int i => some i
  | .float d => d.toInt?

end Number

end Json

/-- A JSON value. -/
inductive Json where
  | null
  | bool (b : Bool)
  | number (n : Json.Number)
  | string (s : String)
  | array (items : List Json)
  | object (members : List (String × Json))
  deriving Inhabited, Repr

namespace Json

/-- The members of a JSON object, in order. -/
abbrev Object := List (String × Json)

namespace Object

/-- The value under a key. -/
def get? (o : Object) (key : String) : Option Json :=
  (o.find? fun member => member.1 == key).map Prod.snd

/-- Writes a member: in place if the key is there, else last. -/
def insert (key : String) (value : Json) : Object → Object
  | [] => [(key, value)]
  | member :: rest =>
    if member.1 == key then (key, value) :: rest else member :: insert key value rest

/-- The object that holds the given members, written in order. -/
def ofList (members : List (String × Json)) : Object :=
  members.foldl (fun o member => insert member.1 member.2 o) []

/-- The keys, in order. -/
def keys (o : Object) : List String :=
  o.map Prod.fst

/-- Nothing is under a key of the empty object. -/
@[simp] theorem get?_nil (key : String) : get? [] key = none :=
  rfl

/-- The first member of a key gives its value. -/
theorem get?_cons (member : String × Json) (rest : Object) (key : String) :
    get? (member :: rest) key = if member.1 = key then some member.2 else get? rest key := by
  by_cases h : member.1 = key <;> simp [get?, h]

/-- Writing a member changes the value under its key, and no other value. -/
theorem get?_insert (o : Object) (key other : String) (value : Json) :
    get? (insert key value o) other = if key = other then some value else get? o other := by
  induction o with
  | nil => simp [insert, get?_cons]
  | cons member rest ih =>
    by_cases h : member.1 = key
    · by_cases hk : key = other <;> simp [insert, get?_cons, h, hk]
    · by_cases hm : member.1 = other
      · have hk : other ≠ key := fun e => h (hm.trans e)
        simp [insert, get?_cons, hm, hk, hk.symm]
      · simp [insert, get?_cons, h, hm, ih]

/-- Writing a member keeps all keys in their places; a new key goes last. -/
theorem keys_insert (o : Object) (key : String) (value : Json) :
    keys (insert key value o) = if key ∈ keys o then keys o else keys o ++ [key] := by
  induction o with
  | nil => simp [insert, keys]
  | cons member rest ih =>
    by_cases h : member.1 = key
    · simp [insert, keys, h]
    · have hk : key ≠ member.1 := fun e => h e.symm
      by_cases hm : key ∈ keys rest <;> simp_all [insert, keys]

/-- Writing a member to an object with distinct keys leaves them distinct. -/
theorem nodup_keys_insert (o : Object) (key : String) (value : Json) (h : (keys o).Nodup) :
    (keys (insert key value o)).Nodup := by
  rw [keys_insert]
  by_cases hk : key ∈ keys o
  · simp [hk, h]
  · simp only [hk, if_false, List.nodup_append, h, true_and]
    refine ⟨by simp, fun a ha b hb e => hk ?_⟩
    simp only [List.mem_singleton] at hb
    exact hb ▸ e ▸ ha

/-- An object that is built by writing members has distinct keys. -/
theorem nodup_keys_ofList (members : List (String × Json)) : (keys (ofList members)).Nodup := by
  have step : ∀ (members : List (String × Json)) (o : Object), (keys o).Nodup →
      (keys (members.foldl (fun o member => insert member.1 member.2 o) o)).Nodup := by
    intro members
    induction members with
    | nil => exact fun _ h => h
    | cons member rest ih => exact fun o h => ih _ (nodup_keys_insert o _ _ h)
  exact step members [] (by simp [keys])

end Object

/-- An integer as a JSON number. -/
def ofInt (i : Int) : Json :=
  .number (.int i)

/-- A decimal as a JSON number; null if no finite double is near it. -/
def ofDecimal (d : Decimal) : Json :=
  match Double.ofDecimal? d with
  | some x => .number (.float x)
  | none => .null

/-- Whether a value is null. -/
def isNull : Json → Bool
  | .null => true
  | _ => false

/-- The text of a string. -/
def string? : Json → Option String
  | .string s => some s
  | _ => none

/-- The members of an object. -/
def object? : Json → Option Object
  | .object o => some o
  | _ => none

/-- The items of an array. -/
def array? : Json → Option (List Json)
  | .array items => some items
  | _ => none

/-- The least and the greatest value of a 32-bit integer. -/
def intMin : Int := -2147483648

/-- The greatest value of a 32-bit integer. -/
def intMax : Int := 2147483647

/-- The value as a 32-bit integer: an integer in range, or a whole number in range. -/
def int32? : Json → Option Int
  | .number n => n.toInt?.filter fun i => decide (intMin ≤ i ∧ i ≤ intMax)
  | _ => none

/-- The value as a double: any number is near one. -/
def double? : Json → Option Double
  | .number n => some n.toDouble
  | _ => none

section Equality

mutual

/-- Equality of JSON values is decidable. -/
def decEq : (a b : Json) → Decidable (a = b)
  | .null, .null => isTrue rfl
  | .bool a, .bool b => if h : a = b then isTrue (by rw [h]) else isFalse (by simp [h])
  | .number a, .number b => if h : a = b then isTrue (by rw [h]) else isFalse (by simp [h])
  | .string a, .string b => if h : a = b then isTrue (by rw [h]) else isFalse (by simp [h])
  | .array a, .array b =>
    match decEqItems a b with
    | isTrue h => isTrue (by rw [h])
    | isFalse h => isFalse (by simp [h])
  | .object a, .object b =>
    match decEqMembers a b with
    | isTrue h => isTrue (by rw [h])
    | isFalse h => isFalse (by simp [h])
  | .null, .bool _ | .null, .number _ | .null, .string _ | .null, .array _ | .null, .object _
  | .bool _, .null | .bool _, .number _ | .bool _, .string _ | .bool _, .array _
  | .bool _, .object _ | .number _, .null | .number _, .bool _ | .number _, .string _
  | .number _, .array _ | .number _, .object _ | .string _, .null | .string _, .bool _
  | .string _, .number _ | .string _, .array _ | .string _, .object _ | .array _, .null
  | .array _, .bool _ | .array _, .number _ | .array _, .string _ | .array _, .object _
  | .object _, .null | .object _, .bool _ | .object _, .number _ | .object _, .string _
  | .object _, .array _ => isFalse (by simp)

/-- Equality of lists of JSON values is decidable. -/
def decEqItems : (as bs : List Json) → Decidable (as = bs)
  | [], [] => isTrue rfl
  | [], _ :: _ => isFalse (by simp)
  | _ :: _, [] => isFalse (by simp)
  | a :: as, b :: bs =>
    match decEq a b, decEqItems as bs with
    | isTrue h, isTrue hs => isTrue (by rw [h, hs])
    | isFalse h, _ => isFalse (by simp [h])
    | _, isFalse hs => isFalse (by simp [hs])

/-- Equality of lists of members is decidable. -/
def decEqMembers : (as bs : List (String × Json)) → Decidable (as = bs)
  | [], [] => isTrue rfl
  | [], _ :: _ => isFalse (by simp)
  | _ :: _, [] => isFalse (by simp)
  | (k, a) :: as, (l, b) :: bs =>
    if hk : k = l then
      match decEq a b, decEqMembers as bs with
      | isTrue h, isTrue hs => isTrue (by rw [hk, h, hs])
      | isFalse h, _ => isFalse (by simp [h])
      | _, isFalse hs => isFalse (by simp [hs])
    else isFalse (by simp [hk])

end

instance : DecidableEq Json := decEq

end Equality

end Json

end GraphQL
