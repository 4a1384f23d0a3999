import FpgaEthash.Devcore.StdString
import Mathlib.Data.Rat.Init

/-!
# JSON values

`Json::Value` of jsoncpp, as far as a client of a JSON protocol reads it.  The
library throws where a value has the wrong type: a member of an array, the text of
an object, a number out of range.  All that it throws derives from
`std::exception`.

A missing member is not an error.  `get` hands back the default it was given, and
`operator[]` a null value; the null member that `operator[]` leaves behind in a
message is written out by `touch`.

A floating-point value is the rational number it stands for.  How it prints is left
to the library, as a function `realText`.
-/

namespace FpgaEthash
namespace Jsoncpp

open Devcore

/-- `Json::LogicError` and `Json::RuntimeError`. -/
inductive Exception where
  | logicError
  | runtimeError
  deriving DecidableEq, Repr

/-- `Json::Value`.  An object is the list of its members. -/
inductive Value where
  | null
  | int (i : ℤ)
  | real (x : ℚ)
  | string (s : StdString)
  | bool (b : Bool)
  | array (xs : List Value)
  | object (members : List (StdString × Value))
  deriving Inhabited

namespace Value

/-! ## Types -/

/-- `isNull`. -/
def isNull : Value → Bool
  | null => true
  | _ => false

/-- `isArray`. -/
def isArray : Value → Bool
  | array _ => true
  | _ => false

/-- `isObject`. -/
def isObject : Value → Bool
  | object _ => true
  | _ => false

/-- `empty`: null, or an array or object without elements. -/
def empty : Value → Bool
  | null => true
  | array xs => xs.isEmpty
  | object members => members.isEmpty
  | _ => false

/-- `size`. -/
def size : Value → ℕ
  | array xs => xs.length
  | object members => members.length
  | _ => 0

/-- `isConvertibleTo(stringValue)`. -/
def isConvertibleToString : Value → Bool
  | array _ => false
  | object _ => false
  | _ => true

/-- `isConvertibleTo(objectValue)`. -/
def isConvertibleToObject (v : Value) : Bool := v.isObject || v.isNull

/-- `isConvertibleTo(booleanValue)`. -/
def isConvertibleToBool : Value → Bool
  | array _ => false
  | object _ => false
  | string _ => false
  | _ => true

/-! ## Members and elements -/

/-- The members of an object, in the order of their insertion. -/
abbrev Members := List (StdString × Value)

/-- The members, of a value that can have any: a null value has none yet. -/
def members : Value → Except Exception Members
  | null => .ok []
  | object ms => .ok ms
  | _ => .error .logicError

namespace Members

/-- `isMember(key)`. -/
def isMember (ms : Members) (key : StdString) : Bool := (ms.lookup key).isSome

/-- `get(key, default)`. -/
def get (ms : Members) (key : StdString) (default : Value) : Value :=
  (ms.lookup key).getD default

/-- `operator[](key)`, as a value. -/
def item (ms : Members) (key : StdString) : Value := ms.get key null

/-- What `operator[](key)` leaves behind: a member that was missing is now null. -/
def touch (ms : Members) (key : StdString) : Members :=
  if ms.isMember key then ms else ms ++ [(key, null)]

end Members

/-- `get(ArrayIndex(i), default)`. -/
def getIndex (v : Value) (i : ℕ) (default : Value) : Except Exception Value :=
  match v with
  | null => .ok default
  | array xs => .ok (xs[i]?.getD default)
  | _ => .error .logicError

/-! ## Conversions -/

/-- `asString`, where `realText` prints a floating-point value. -/
def asString (realText : ℚ → StdString) : Value → Except Exception StdString
  | null => .ok []
  | string s => .ok s
  | bool b => .ok (if b then "true".toList else "false".toList)
  | int i => .ok (toString i).toList
  | real x => .ok (realText x)
  | array _ => .error .logicError
  | object _ => .error .logicError

/-- `asUInt`. -/
def asUInt : Value → Except Exception (BitVec 32)
  | null => .ok 0
  | bool b => .ok (if b then 1 else 0)
  | int i => if 0 ≤ i ∧ i ≤ 4294967295 then .ok (BitVec.ofInt 32 i) else .error .logicError
  | real x =>
    if 0 ≤ x ∧ x ≤ 4294967295 then .ok (BitVec.ofInt 32 x.floor) else .error .logicError
  | _ => .error .logicError

/-- `asBool`. -/
def asBool : Value → Except Exception Bool
  | null => .ok false
  | bool b => .ok b
  | int i => .ok (i != 0)
  | real x => .ok (x != 0)
  | _ => .error .logicError

/-- `asDouble`. -/
def asDouble : Value → Except Exception ℚ
  | null => .ok 0
  | bool b => .ok (if b then 1 else 0)
  | int i => .ok i
  | real x => .ok x
  | _ => .error .logicError

end Value
end Jsoncpp
end FpgaEthash
