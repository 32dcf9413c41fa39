import FleetHealth.Fleet.Record
import FleetHealth.Health.Tracker
import FleetHealth.Text.Base64
import FleetHealth.Text.Blank
/-!
# The policy of a run

A stored policy may hold anything. A run works from its snapshot, in which every default is filled in
and every limit applied.
-/

namespace FleetHealth

/-- A policy with all defaults filled in. Times are in milliseconds. -/
structure PolicySnapshot where
  urlTemplate : String
  method : String
  /-- The status codes that pass; any does if there are none. -/
  statusCodes : List UInt16
  userAgent : String
  timeout : UInt64
  maxAttempts : UInt32
  tryDelay : UInt64
  successThreshold : UInt32
  failThreshold : UInt32
  autoDown : Bool
  /-- What tells the node that a request is a health check. -/
  marker : String
  deriving DecidableEq, Repr, Inhabited

/-- Why a policy has no snapshot. -/
inductive PolicyError where
  /-- The method, here as stored, is not a token. -/
  | unsupportedMethod (method : String)
  deriving DecidableEq, Repr, Inhabited

/-- The wording of an error. -/
def PolicyError.message : PolicyError → String
  | .unsupportedMethod method => s!"unsupported method '{method}'"

/-- The text that stands for the probed host in a URL template. -/
def hostPlaceholder : String := "$\x7bhost\x7d"

/-- The template of a policy that has none. -/
def defaultUrl : String := "http://" ++ hostPlaceholder ++ "/"

/-- The user agent of a policy that has none. -/
def defaultUserAgent : String :=
  "Mozilla/5.0 (Macintosh; Intel Mac OS X 10_15_7) AppleWebKit/537.36 (KHTML, like Gecko) " ++
    "Chrome/94.0.4606.81 Safari/537.36"

/-- Whether a character may stand in a token of HTTP. -/
def isTokenChar (c : Char) : Bool :=
  c.isAlphanum || "!#$%&'*+-.^_\x60|~".toList.contains c

/-- The number of attempts: three if less than one is asked for, and at most ten. -/
def clampAttempts (n : Int64) : UInt32 :=
  if n < 1 then 3 else if 10 < n then 10 else UInt32.ofNat n.toInt.toNat

/-- The pause between attempts: a second if none is asked for, and at most a minute. -/
def clampDelay (ms : Option UInt64) : UInt64 :=
  min (ms.getD 1000) 60000

/-- The time for one probe: five seconds if none, or zero, is asked for. -/
def effectiveTimeout : Option UInt64 → UInt64
  | some ms => if ms = 0 then 5000 else ms
  | none => 5000

/-- What tells a node that a request is a health check, and whether to cut its work short. -/
def markerValue (onlyBasicRequest : Bool) : String :=
  let payload := "\x7b\"onlyBasicRequest\":" ++ (if onlyBasicRequest then "true" else "false") ++ "\x7d"
  String.ofList (Text.base64 payload.toUTF8.toList)

namespace Policy

/-- The template of the URL, without blanks at its ends. -/
def urlTemplate (p : Policy) : String :=
  let url := Text.trim p.url
  if url.isEmpty then defaultUrl else url

/-- The method in capitals, without blanks at its ends; `none` if it is not a token. -/
def effectiveMethod? (p : Policy) : Option String :=
  let method := Text.trim p.method
  if method.isEmpty then some "GET"
  else
    let method := method.map Char.toUpper
    if method.toList.all isTokenChar then some method else none

/-- The policy as a run uses it. -/
def snapshot (p : Policy) : Except PolicyError PolicySnapshot :=
  match p.effectiveMethod? with
  | none => .error (.unsupportedMethod p.method)
  | some method =>
    .ok
      { urlTemplate := p.urlTemplate
        method
        statusCodes := p.statusCodes
        userAgent := if p.userAgent.isEmpty then defaultUserAgent else p.userAgent
        timeout := effectiveTimeout p.timeoutMs
        maxAttempts := clampAttempts p.maxAttempts
        tryDelay := clampDelay p.tryDelayMs
        successThreshold := atLeastOne p.countUp
        failThreshold := atLeastOne p.countDown
        autoDown := p.autoDown
        marker := markerValue p.onlyBasicRequest }

end Policy

namespace PolicySnapshot

/-- Whether a status code passes. -/
def accepts (p : PolicySnapshot) (status : UInt16) : Bool :=
  p.statusCodes.isEmpty || p.statusCodes.contains status

/-- The tracker that judges health by the policy. -/
def tracker (p : PolicySnapshot) : Tracker :=
  .ofThresholds p.successThreshold p.failThreshold p.autoDown

end PolicySnapshot

end FleetHealth
