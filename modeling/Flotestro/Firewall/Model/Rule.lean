import Flotestro.Library.Decimal
import Flotestro.Library.Network

/-!
# Firewall rules

A rule of the panel, what is checked of it, the expression it becomes in the language of `nft`, and the
check that it does not cut the host off from the panel.  `ParseIP` and `ParseCIDR` of the source are
parameters.
-/

set_option autoImplicit false

namespace Flotestro.Firewall

open Library

abbrev Str := Bytes

/-- Addresses and prefixes as the source reads them. -/
structure Net where
  parseIP : Str → Option IP
  parseCIDR : Str → Option Cidr

def chainInput : Str := ascii "input".toList
def chainOutput : Str := ascii "output".toList

def actionAccept : Str := ascii "accept".toList
def actionDrop : Str := ascii "drop".toList
def actionReject : Str := ascii "reject".toList

def tcp : Str := ascii "tcp".toList
def udp : Str := ascii "udp".toList
def icmp : Str := ascii "icmp".toList

/-- SOURCE: rule.go:28-43 -/
structure RuleSpec where
  id : Str
  chain : Str
  action : Str
  protocol : Str
  ports : List Str
  sources : List Str
  interface : Str
  comment : Str

def isDigit (b : UInt8) : Bool := 48 ≤ b && b ≤ 57
def isLower (b : UInt8) : Bool := 97 ≤ b && b ≤ 122
def isUpper (b : UInt8) : Bool := 65 ≤ b && b ≤ 90

/-- A first character of one class and up to so many of another. -/
def named (first rest : UInt8 → Bool) (bound : Nat) : Str → Bool
  | [] => false
  | b :: s => first b && s.all rest && decide (s.length ≤ bound)

/-- SOURCE: rule.go:46 -/
def ruleIdentifier (s : Str) : Bool :=
  named (fun b => isLower b || isDigit b) (fun b => isLower b || isDigit b || b = 45) 62 s

/-- SOURCE: rule.go:48 -/
def interfaceName (s : Str) : Bool :=
  named (fun b => isUpper b || isLower b || isDigit b)
    (fun b => isUpper b || isLower b || isDigit b || b = 46 || b = 95 || b = 45) 14 s

def shortNumber (s : Str) : Option Nat :=
  if 1 ≤ s.length ∧ s.length ≤ 5 ∧ s.all isDigit then parseDecimal s else none

/-- The numbers of a port or of a range of ports.  SOURCE: rule.go:47 -/
def portRange (s : Str) : Option (Nat × Option Nat) :=
  match s.dropWhile isDigit with
  | [] => (shortNumber s).map fun start => (start, none)
  | 45 :: stop =>
    match shortNumber (s.takeWhile isDigit), shortNumber stop with
    | some start, some stop => some (start, some stop)
    | _, _ => none
  | _ => none

inductive RuleError where
  | name (id : Str)
  | chain
  | action (action : Str)
  | protocol (protocol : Str)
  | portsWithoutProtocol
  | port (port : Str)
  | portOutside (port : Nat)
  | portRangeEmpty (port : Str)
  | source (source : Str)
  | interface (name : Str)
  | comment
  | noMatch
  deriving DecidableEq

/-- SOURCE: rule.go:97-113 -/
def validatePort (port : Str) : Except RuleError Unit :=
  match portRange port with
  | none => .error (.port port)
  | some (start, stop) =>
    if start < 1 ∨ 65535 < start then .error (.portOutside start)
    else
      match stop with
      | none => .ok ()
      | some stop =>
        if stop < 1 ∨ 65535 < stop ∨ stop ≤ start then .error (.portRangeEmpty port) else .ok ()

def refuseIf (c : Prop) [Decidable c] (err : RuleError) : Except RuleError Unit :=
  if c then .error err else .ok ()

/-- SOURCE: rule.go:52-95 -/
def RuleSpec.validate (net : Net) (r : RuleSpec) : Except RuleError Unit := do
  refuseIf (ruleIdentifier r.id = false) (.name r.id)
  refuseIf (r.chain ≠ chainInput ∧ r.chain ≠ chainOutput) .chain
  refuseIf (r.action ≠ actionAccept ∧ r.action ≠ actionDrop ∧ r.action ≠ actionReject)
    (.action r.action)
  refuseIf (r.protocol ≠ [] ∧ r.protocol ≠ tcp ∧ r.protocol ≠ udp ∧ r.protocol ≠ icmp)
    (.protocol r.protocol)
  refuseIf (0 < r.ports.length ∧ r.protocol ≠ tcp ∧ r.protocol ≠ udp) .portsWithoutProtocol
  r.ports.forM validatePort
  r.sources.forM fun source => refuseIf ((net.parseCIDR source).isNone = true) (.source source)
  refuseIf (r.interface ≠ [] ∧ interfaceName r.interface = false) (.interface r.interface)
  refuseIf ((r.comment.any fun b => b = 34 || b = 92 || b = 10) = true) .comment
  refuseIf (r.protocol = [] ∧ r.ports.length = 0 ∧ r.sources.length = 0 ∧ r.interface = []) .noMatch

/-- SOURCE: rule.go:25 -/
def commentPrefix : Str := ascii "flotestro:".toList

/-- SOURCE: rule.go:116-121 -/
def RuleSpec.marker (r : RuleSpec) : Str :=
  if r.comment = [] then commentPrefix ++ ascii " ".toList ++ r.id
  else commentPrefix ++ ascii " ".toList ++ r.id ++ ascii " - ".toList ++ r.comment

/-- The pieces of a rule in the language of `nft`. -/
inductive Statement where
  | interface (key name : Str)
  | saddr (keyword : Str) (sources : List Str)
  | l4proto (protocol : Str)
  | dport (protocol : Str) (ports : List Str)
  | verdict (action marker : Str)

def iifname : Str := ascii "iifname".toList
def oifname : Str := ascii "oifname".toList
def ip : Str := ascii "ip".toList
def ip6 : Str := ascii "ip6".toList

/-- SOURCE: rule.go:163-168 -/
def addressKeyword (address : Str) : Str := if 58 ∈ address then ip6 else ip

/-- SOURCE: rule.go:136-161 -/
def RuleSpec.expression (r : RuleSpec) : List Statement :=
  (if r.interface = [] then []
    else [.interface (if r.chain = chainOutput then oifname else iifname) r.interface]) ++
  (match r.sources with
    | [] => []
    | source :: sources => [.saddr (addressKeyword source) (source :: sources)]) ++
  (if r.protocol = icmp then [.l4proto icmp]
    else if r.protocol ≠ [] ∧ 0 < r.ports.length then [.dport r.protocol r.ports]
    else if r.protocol ≠ [] then [.l4proto r.protocol]
    else []) ++
  [.verdict r.action r.marker]

/-- SOURCE: rule.go:235-255 -/
def matchesPort (r : RuleSpec) (port : Nat) : Bool :=
  if r.ports.length = 0 then r.protocol = [] || r.protocol = tcp
  else r.ports.any fun entry =>
    match portRange entry with
    | none => false
    | some (start, stop) => start ≤ port && port ≤ stop.getD start

/-- SOURCE: rule.go:257-272 -/
def matchesAddress (net : Net) (r : RuleSpec) (address : Str) : Bool :=
  if r.sources.length = 0 then false
  else
    match net.parseIP address with
    | none => false
    | some ip => r.sources.any fun source =>
      match net.parseCIDR source with
      | none => false
      | some network => network.contains ip

/-- Why a rule would cut the host off. -/
inductive ChannelError where
  | port (port : Nat)
  | address (address : Str)
  | unrestricted
  deriving DecidableEq

/-- SOURCE: rule.go:213-234 -/
def protectsManagementChannel (net : Net) (r : RuleSpec) (panelAddress : Str) (agentPort : Nat) :
    Except ChannelError Unit :=
  if r.action = actionAccept then .ok ()
  else if matchesPort r agentPort then .error (.port agentPort)
  else if panelAddress ≠ [] ∧ matchesAddress net r panelAddress then .error (.address panelAddress)
  else if r.sources.length = 0 ∧ r.ports.length = 0 ∧ r.interface = [] then .error .unrestricted
  else .ok ()

end Flotestro.Firewall
