import FleetHealth.Text.Decimal
import FleetHealth.Text.Split
/-!
# Host names

Who a TLS server can claim to be: a name of the domain name system, or an address.
-/

namespace FleetHealth.Http

/-! ## Names -/

/-- Whether a character may stand at either end of a label. -/
def isLabelEnd (c : Char) : Bool :=
  c.isAlphanum || c == '_'

/-- Whether a text is a label of a name: up to 63 letters, digits, underscores and hyphens, with no
hyphen at either end. -/
def isLabel (cs : List Char) : Bool :=
  cs.length ≤ 63 && cs.all (fun c => isLabelEnd c || c == '-')
    && cs.head?.any isLabelEnd && cs.getLast?.any isLabelEnd

/-- A name without the dot that may end it. -/
def withoutFinalDot (cs : List Char) : List Char :=
  if cs.getLast? == some '.' then cs.dropLast else cs

/-- Whether a text is a name: labels between dots, up to 253 characters in all, of which the last label
is not a number. -/
def isDomainName (cs : List Char) : Bool :=
  let labels := Text.splitAt '.' (withoutFinalDot cs)
  cs.length ≤ 253 && labels.all isLabel && !(labels.getLast?.any fun label => label.all Char.isDigit)

/-! ## Addresses -/

/-- Whether a text is a number up to 255 without leading zeros. -/
def isOctet (cs : List Char) : Bool :=
  match Text.ofDigits? cs with
  | some n => n ≤ 255 && cs == Text.digits n
  | none => false

/-- Whether a text is an address of version 4. -/
def isAddressV4 (cs : List Char) : Bool :=
  let parts := Text.splitAt '.' cs
  parts.length == 4 && parts.all isOctet

/-- Whether a character is a hexadecimal digit. -/
def isHexDigit (c : Char) : Bool :=
  c.isDigit || ('a' ≤ c && c ≤ 'f') || ('A' ≤ c && c ≤ 'F')

/-- Whether a text is one of the groups of an address of version 6. -/
def isGroup (cs : List Char) : Bool :=
  !cs.isEmpty && cs.length ≤ 4 && cs.all isHexDigit

/-- The number of groups that a run of groups stands for, if it is one. An address of version 4 may end
the run, and stands for two. -/
def groupCount? (parts : List (List Char)) : Option Nat :=
  match parts.reverse with
  | [] => some 0
  | last :: before =>
    if !before.all isGroup then none
    else if isGroup last then some parts.length
    else if isAddressV4 last then some (parts.length + 1)
    else none

/-- The groups in a text, none if it is empty. -/
def groupsOf (cs : List Char) : List (List Char) :=
  if cs.isEmpty then [] else Text.splitAt ':' cs

/-- The two sides of the first pair of colons. -/
def splitAtGap : List Char → Option (List Char × List Char)
  | ':' :: ':' :: rest => some ([], rest)
  | c :: rest => (splitAtGap rest).map fun sides => (c :: sides.1, sides.2)
  | [] => none

/-- Whether a text is an address of version 6: eight groups, or fewer with one gap. -/
def isAddressV6 (cs : List Char) : Bool :=
  match splitAtGap cs with
  | none => groupCount? (groupsOf cs) == some 8
  | some (left, right) =>
    (groupsOf left).all isGroup &&
      (groupCount? (groupsOf right)).any fun n => (groupsOf left).length + n ≤ 7

/-- Whether a text is an address. -/
def isAddress (cs : List Char) : Bool :=
  isAddressV4 cs || isAddressV6 cs

/-! ## Servers -/

/-- Who a server is asked to be. -/
inductive ServerName where
  /-- A name, which the client names to the server. -/
  | domain (name : List Char)
  /-- An address, which it does not. -/
  | address
  deriving DecidableEq, Repr, Inhabited

/-- The server that a host without brackets stands for. -/
def ServerName.ofHost? (host : List Char) : Option ServerName :=
  if isDomainName host then some (.domain ((withoutFinalDot host).map Char.toLower))
  else if isAddress host then some .address
  else none

/-- The name that the client names to the server. -/
def ServerName.indication : ServerName → Option (List Char)
  | .domain name => some name
  | .address => none

end FleetHealth.Http
