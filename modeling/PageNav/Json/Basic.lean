import PageNav.Text.Decimal

/-!
# JSON values

Objects keep the order in which their members were written. Two objects that differ in that order
alone count as the same.
-/

namespace PageNav

/-- A number, either whole or with a fraction or a power. `3` and `3.0` are told apart. -/
inductive Number where
  | whole (value : Int)
  | real (value : Float)
deriving BEq

def Number.text : Number → String
  | .whole n => toString n
  | .real x => Text.realText x

mutual

inductive Json where
  | null
  | bool (value : Bool)
  | number (value : Number)
  | string (value : String)
  | array (items : Json.Items)
  | object (members : Json.Members)

inductive Json.Items where
  | nil
  | cons (head : Json) (tail : Json.Items)

/-- The members of an object, in the order in which they are written. -/
inductive Json.Members where
  | nil
  | cons (key : String) (value : Json) (rest : Json.Members)

end

instance : Inhabited Json := ⟨.null⟩

namespace Json

inductive Kind where
  | null
  | bool
  | number
  | string
  | array
  | object
deriving DecidableEq, Repr

def kind : Json → Kind
  | null => .null
  | bool _ => .bool
  | number _ => .number
  | string _ => .string
  | array _ => .array
  | object _ => .object

namespace Items

def ofList : List Json → Items
  | [] => nil
  | j :: js => cons j (ofList js)

def toList : Items → List Json
  | nil => []
  | cons j js => j :: js.toList

end Items

namespace Members

def find? (key : String) : Members → Option Json
  | nil => none
  | cons k value rest => if k = key then some value else rest.find? key

def length : Members → Nat
  | nil => 0
  | cons _ _ rest => rest.length + 1

def keys : Members → List String
  | nil => []
  | cons k _ rest => k :: rest.keys

/-- A key that is there already keeps its place and gets the new value. A new key goes last. -/
def insert (key : String) (value : Json) : Members → Members
  | nil => cons key value nil
  | cons k old rest => if k = key then cons k value rest else cons k old (rest.insert key value)

def toList : Members → List (String × Json)
  | nil => []
  | cons k value rest => (k, value) :: rest.toList

/-- The members in order, for keys that are all different. -/
def ofList : List (String × Json) → Members
  | [] => nil
  | (k, value) :: rest => cons k value (ofList rest)

end Members

def get? (key : String) : Json → Option Json
  | object members => members.find? key
  | _ => none

mutual

/-- Whether two values are the same when the order of members does not count. -/
def same : Json → Json → Bool
  | null, null => true
  | bool a, bool b => a == b
  | number a, number b => a == b
  | string a, string b => a == b
  | array a, array b => sameItems a b
  | object a, object b => a.length == b.length && membersIn a b
  | _, _ => false

def sameItems : Items → Items → Bool
  | .nil, .nil => true
  | .cons x xs, .cons y ys => same x y && sameItems xs ys
  | _, _ => false

/-- Whether every member on the left has its like on the right. -/
def membersIn : Members → Members → Bool
  | .nil, _ => true
  | .cons key value rest, other => (other.find? key).any (same value) && membersIn rest other

end

end Json

end PageNav
