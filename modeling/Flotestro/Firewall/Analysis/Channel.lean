import Flotestro.Firewall.Interface.Packets

/-!
# The management channel

A rule that the check lets through matches what the host sends to the panel only where `nft` reads a port
of it otherwise than the check.  On the chain of what comes in it matches the answers of the panel where
it has an ephemeral port among its ports and names no sources, or the panel among them: the check compares
the port of the panel there too.
-/

set_option autoImplicit false

namespace Flotestro.Firewall

open Library List

variable {net : Net} {r : RuleSpec} {panelAddress : Str} {agentPort : Nat}

/-! ## What the checks say -/

theorem protects_ok (haction : r.action ≠ actionAccept)
    (h : protectsManagementChannel net r panelAddress agentPort = .ok ()) :
    matchesPort r agentPort = false ∧
      (panelAddress ≠ [] → matchesAddress net r panelAddress = false) := by
  unfold protectsManagementChannel at h
  rw [if_neg haction] at h
  obtain ⟨hport, h⟩ := of_else h nofun
  obtain ⟨haddress, h⟩ := of_else h nofun
  refine ⟨by simpa using hport, fun hne => ?_⟩
  rw [← Bool.not_eq_true]
  exact fun hmatches => haddress ⟨hne, hmatches⟩

/-! ## What an expression matches -/

variable {nft : Nft net} {p : Packet} {e : Ephemeral} {panel : IP}

/-- The family of the set of sources. -/
def RuleSpec.family (r : RuleSpec) : Str := addressKeyword (r.sources.headD [])

/-- The check has an address to compare the sources with. -/
def Known (net : Net) (panelAddress : Str) : Prop :=
  panelAddress ≠ [] ∧ (net.parseIP panelAddress).isSome = true

/-- What a rule for TCP must not do.  On the way out: have a port with a leading zero that `nft` reads
as the port of the panel, with no sources or with one of the family of the first.  On the way in: have a
port that `nft` reads as an ephemeral one, with no sources or with one that `nft` finds the panel in;
this one has a leading zero where the check knows the address. -/
structure Kept (nft : Nft net) (r : RuleSpec) (e : Ephemeral) (panelAddress : Str) (panel : IP)
    (agentPort : Nat) : Prop where
  output : r.protocol = tcp → r.chain = chainOutput →
    (∀ port ∈ r.ports, plainPort port = false → nft.opens port agentPort = false) ∨
      r.sources ≠ [] ∧ ∀ source ∈ r.sources, ∀ address, nft.covers r.family source address = false
  input : r.protocol = tcp → r.chain = chainInput →
    (∀ port ∈ r.ports, ∀ n, e.has n → nft.opens port n = false) ∨
      r.sources ≠ [] ∧ ∀ source ∈ r.sources, plainPrefix source = false ∨ ¬Known net panelAddress →
        nft.covers r.family source panel = false

section

variable (hvalid : r.validate net = .ok ()) (haction : r.action = actionDrop ∨ r.action = actionReject)
  (hprotects : protectsManagementChannel net r panelAddress agentPort = .ok ())

include haction hprotects

theorem checked : matchesPort r agentPort = false ∧
    (panelAddress ≠ [] → matchesAddress net r panelAddress = false) := by
  refine protects_ok ?_ hprotects
  rcases haction with h | h <;> rw [h] <;> decide

include hvalid

end

end Flotestro.Firewall
