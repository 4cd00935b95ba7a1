import Mathlib.Data.List.Basic

/-! What all connections have in common: their types, their states, and the I/O modes that tell the
connection manager what a connection needs. -/
namespace AcpltKs

inductive ConnectionType where
  | server
  | client
  deriving DecidableEq

inductive ConnectionState where
  | idle
  | waiting
  | passive
  | ready
  | readyFailed
  | receiving
  | sending
  | connecting
  | connFailed
  | connected
  | dead
  deriving DecidableEq

/-- The bits of an I/O mode; dormant is none of them. -/
structure ConnectionIoMode where
  readable : Bool := false
  writeable : Bool := false
  attention : Bool := false
  dead : Bool := false
  needTimeout : Bool := false
  noFastwrite : Bool := false
  hadError : Bool := false
  hadTxError : Bool := false
  hadRxError : Bool := false
  deriving DecidableEq

end AcpltKs
