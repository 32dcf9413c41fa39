import FleetHealth.Http.Uri
import FleetHealth.Policy.Snapshot
/-!
# The request of a probe

One request without a body, after which the connection is to be closed.
-/

namespace FleetHealth.Http

/-- A request. -/
structure Request where
  method : List Char
  target : List Char
  host : List Char
  userAgent : List Char
  marker : List Char
  deriving DecidableEq, Repr, Inhabited

/-- Whether a character may stand in the value of a header. -/
def isValueChar (c : Char) : Bool :=
  c == '\t' || (' ' ≤ c && c != '\x7f')

namespace Request

/-- The end of a line. -/
def lineEnd : List Char := ['\r', '\n']

/-- A line with a header. -/
def headerLine (name : String) (value : List Char) : List Char :=
  name.toList ++ [':', ' '] ++ value ++ lineEnd

/-- The written form of a request. -/
def text (r : Request) : List Char :=
  r.method ++ ' ' :: (r.target ++ " HTTP/1.1".toList ++ lineEnd) ++ headerLine "host" r.host ++
    headerLine "user-agent" r.userAgent ++ headerLine "x-edge-health-check-key" r.marker ++
    headerLine "connection" "close".toList ++ lineEnd

end Request

end FleetHealth.Http
