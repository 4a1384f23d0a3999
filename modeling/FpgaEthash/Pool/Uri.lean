import FpgaEthash.Devcore.StdString

/-!
# Connection definitions

`URI` of `libpoolprotocols/PoolURI.h`: the parts of a pool's address that the clients
read, and what they note down in it.  The object outlives the client that uses it, so
the stratum mode found for a pool is known when the pool is tried again.
-/

namespace FpgaEthash
namespace Pool

open Devcore

/-- `SecureLevel`. -/
inductive SecureLevel where
  | none
  | tls12
  | tls
  deriving DecidableEq, Repr

/-- `UriHostNameType`. -/
inductive UriHostNameType where
  | unknown
  | basic
  | dns
  | ipv4
  | ipv6
  deriving DecidableEq, Repr

/-- `URI`, without the texts that only the parser looks at.  `version` and `secLevel`
come from the scheme; version 999 asks for autodetection, and a stratum mode of 999 is
one that has not been tested yet. -/
structure Uri where
  version : ℕ
  secLevel : SecureLevel := .none
  host : StdString := []
  hostNameType : UriHostNameType := .unknown
  port : BitVec 16 := 0
  path : StdString := []
  user : StdString := []
  pass : StdString := ['X']
  workername : StdString := []
  stratumMode : ℕ := 999
  stratumModeConfirmed : Bool := false
  unrecoverable : Bool := false
  responds : Bool := false
  deriving DecidableEq

/-- `UserDotWorker`, of the two names. -/
def userDotWorker (user workername : StdString) : StdString :=
  if workername = [] then user else user ++ '.' :: workername

namespace Uri

/-- `SetStratumMode(mode, confirmed)`. -/
def setStratumMode (u : Uri) (mode : ℕ) (confirmed : Bool) : Uri :=
  { u with stratumMode := mode, stratumModeConfirmed := confirmed }

/-- `MarkUnrecoverable`. -/
def markUnrecoverable (u : Uri) : Uri := { u with unrecoverable := true }

/-- The mode in which a connection that has just been established is used.  A specific
scheme confirms its version; autodetection starts at 3 and goes on where it was. -/
def selectStratumMode (u : Uri) : Uri :=
  if u.version < 999 then u.setStratumMode u.version true
  else if !u.stratumModeConfirmed && u.stratumMode == 999 then u.setStratumMode 3 false
  else u

/-- A client that gets disconnected goes on with the next stratum mode. -/
def autodetects (u : Uri) : Bool := !u.unrecoverable && (!u.stratumModeConfirmed && u.responds)

end Uri
end Pool
end FpgaEthash
