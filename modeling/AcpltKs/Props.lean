import AcpltKs.Plt.String
import AcpltKs.Result

/-! The values of variables, and the engineered and current properties of communication objects. -/
namespace AcpltKs

/-- A point in time as it goes over the wire, in seconds and microseconds. -/
structure PltTime where
  sec : Int32
  usec : Int32
  deriving DecidableEq

structure PltTimeSpan where
  sec : Int32
  usec : Int32
  deriving DecidableEq

/-- A value of each of its classes. Floating point numbers are given by their bits. -/
inductive KsValue where
  | bool (val : Bool)
  | int (val : Int32)
  | uint (val : UInt32)
  | single (bits : UInt32)
  | double (bits : UInt64)
  | string (val : KsString)
  | time (val : PltTime)
  | timeSpan (val : PltTimeSpan)
  | state (val : UInt32)
  | void
  | byteVec (vals : List UInt8)
  | boolVec (vals : List Bool)
  | intVec (vals : List Int32)
  | uintVec (vals : List UInt32)
  | singleVec (vals : List UInt32)
  | doubleVec (vals : List UInt64)
  | stringVec (vals : List KsString)
  | timeVec (vals : List PltTime)
  | timeSpanVec (vals : List PltTimeSpan)
  | stateVec (vals : List UInt32)
  deriving DecidableEq

/-- The current properties; the handle of a variable's value may be unbound. -/
inductive KsCurrProps where
  | var (value : Option KsValue) (time : PltTime) (state : UInt32)
  | domain
  deriving DecidableEq

/-- The object types, which are bits of a type mask. -/
abbrev KsObjType := UInt32

namespace KsObjType

def domain : KsObjType := 0x0001
def var : KsObjType := 0x0002
def history : KsObjType := 0x0004
def link : KsObjType := 0x0008
def struct : KsObjType := 0x0010

end KsObjType

abbrev KsAccess := UInt32

namespace KsAccess

def none : KsAccess := 0
def read : KsAccess := 1
def write : KsAccess := 2
def readWrite : KsAccess := read ||| write

end KsAccess

/-- What the engineered properties of an object hold in addition to the common ones. -/
inductive KsEngPropsVariant where
  | var (techUnit : KsString) (type : UInt32)
  | domain (classIdentifier : KsString)
  | link (type : UInt32) (oppositeRoleIdentifier associationIdentifier : KsString)
  | history (type defaultInterpolation supportedInterpolations : UInt32)
      (typeIdentifier : KsString)
  | struct (structureFlags : UInt32)
  deriving DecidableEq

structure KsEngProps where
  identifier : KsString
  creationTime : PltTime
  comment : KsString
  accessMode : KsAccess
  semanticFlags : UInt32
  variant : KsEngPropsVariant
  deriving DecidableEq

end AcpltKs
