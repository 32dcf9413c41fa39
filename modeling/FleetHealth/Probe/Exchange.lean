import FleetHealth.Http.HostName
import FleetHealth.Http.Response
import FleetHealth.Probe.Script
import FleetHealth.Probe.Template
/-!
# One probe over HTTP

A probe is planned as a call, the network answers the call, and the outcome follows from both. The
network is an argument here: what it delivers is all that an outcome depends on besides the policy and
the address.
-/

namespace FleetHealth.Probe

/-- Why no connection came about. -/
inductive DialFault where
  | refused
  | unreachable
  /-- Any other cause, in the words of the system. -/
  | other (cause : String)
  deriving DecidableEq, Repr, Inhabited

/-- The wording of a fault. -/
def DialFault.message : DialFault → String
  | .refused => "Connection refused (os error 111)"
  | .unreachable => "Network is unreachable (os error 101)"
  | .other cause => cause

/-- Why there is no secure connection. -/
inductive HandshakeFault where
  /-- The peer closed the connection. -/
  | closed
  /-- The peer speaks something else. -/
  | notSecure
  /-- There is nothing here to make a connection secure with. -/
  | unsupported
  deriving DecidableEq, Repr, Inhabited

/-- The wording of a fault. -/
def HandshakeFault.message : HandshakeFault → String
  | .closed => "tls handshake eof"
  | .notSecure => "received corrupt message of type InvalidContentType"
  | .unsupported => "tls is not supported"

/-- Why a probe failed. -/
inductive Fault where
  | invalidUrl (url : String) (cause : Http.UriFault)
  | unsupportedScheme (scheme : String)
  | invalidTarget (cause : Http.UriFault)
  | invalidUserAgent
  | notConnected (address : String) (port : UInt16) (cause : DialFault)
  | invalidServerName
  | notSecured (cause : HandshakeFault)
  | timedOut (timeout : UInt64)
  | unreadable (cause : Http.ResponseFault)
  | rejected (status : Nat)
  deriving DecidableEq, Repr, Inhabited

/-- The wording of a fault. -/
def Fault.message : Fault → String
  | .invalidUrl url cause => s!"invalid probe url '{url}': {cause.message}"
  | .unsupportedScheme scheme => s!"unsupported url scheme '{scheme}'"
  | .invalidTarget cause => s!"invalid probe request: {cause.message}"
  | .invalidUserAgent => "invalid probe request: failed to parse header value"
  | .notConnected address port cause =>
    s!"connect to {address}:{port.toNat} failed: {cause.message}"
  | .invalidServerName => "invalid tls server name: invalid dns name"
  | .notSecured cause => s!"tls handshake failed: {cause.message}"
  | .timedOut timeout => s!"request timed out after {timeout.toNat}ms"
  | .unreadable cause => s!"request failed: {cause.message}"
  | .rejected status => s!"invalid response status code '{status}'"

/-- What a probe asks of the network. -/
structure Call where
  address : String
  port : UInt16
  /-- Whether the connection is to be secure. -/
  secure : Bool
  /-- The host that the peer is to be, for a secure connection. -/
  host : List Char
  request : Http.Request
  /-- How long all of it may take, in milliseconds. -/
  timeout : UInt64
  deriving DecidableEq, Repr, Inhabited

/-- What the network answers. -/
inductive Delivery where
  /-- No connection came about. -/
  | notConnected (cause : DialFault)
  /-- The connection could not be made secure. -/
  | notSecured (cause : HandshakeFault)
  /-- Time ran out. -/
  | silent
  /-- These bytes came back, and then the connection was closed. -/
  | received (bytes : List Char)
  deriving DecidableEq, Repr, Inhabited

/-- The call for an address under a policy. -/
def Call.plan (p : PolicySnapshot) (ip : String) : Except Fault Call := do
  let url := Probe.url p.urlTemplate ip
  let uri ← (Http.Uri.parse url).mapError (.invalidUrl url)
  let secure ←
    if uri.scheme = some "http".toList then .ok false
    else if uri.scheme = some "https".toList then .ok true
    else .error (.unsupportedScheme (String.ofList (uri.scheme.getD [])))
  let _ ← (Http.Uri.parse (String.ofList uri.target)).mapError .invalidTarget
  if p.userAgent.toList.all Http.isValueChar then
    return {
      address := String.ofList (Http.unbracket ip.toList)
      port := uri.port?.getD (if secure then 443 else 80)
      secure
      host := Http.unbracket uri.host
      request := ⟨p.method.toList, uri.target, uri.authority, p.userAgent.toList, p.marker.toList⟩
      timeout := p.timeout }
  else .error .invalidUserAgent

namespace Call

/-- The server that a secure connection has to lead to. -/
def server? (c : Call) : Option Http.ServerName :=
  Http.ServerName.ofHost? c.host

/-- The status that a delivery brought, if it brought one. -/
def status (c : Call) : Delivery → Except Fault Nat
  | .notConnected cause => .error (.notConnected c.address c.port cause)
  | delivery =>
    if c.secure && c.server?.isNone then .error .invalidServerName
    else
      match delivery with
      | .received bytes => (Http.status c.request.method bytes).mapError .unreadable
      | .notSecured cause => .error (.notSecured cause)
      | _ => .error (.timedOut c.timeout)

end Call

/-- The fault in what a policy makes of a delivery, if there is one. -/
def fault? (network : Call → Delivery) (p : PolicySnapshot) (ip : String) : Option Fault :=
  match Call.plan p ip with
  | .error fault => some fault
  | .ok call =>
    match call.status (network call) with
    | .error fault => some fault
    | .ok status => if p.accepts (UInt16.ofNat status) then none else some (.rejected status)

/-- The outcome of a probe. -/
def outcome (network : Call → Delivery) (p : PolicySnapshot) (ip : String) : Outcome :=
  match fault? network p ip with
  | none => { passed := true, reason := none }
  | some fault => { passed := false, reason := some fault.message }

/-- A network that answers at once, as a prober. -/
def prober (network : Call → Delivery) : Prober Unit :=
  fun _ p ip => ({ latency := 0, outcome := some (outcome network p ip) }, ())

end FleetHealth.Probe
