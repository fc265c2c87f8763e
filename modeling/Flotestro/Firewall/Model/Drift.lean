import Flotestro.Firewall.Model.Rule
import Mathlib.Data.Multiset.OrderedMonoid

/-!
# Drift of the boot ruleset

The rules a host restores at boot are compared with those the kernel filters with.  What a rule is
compared by is a parameter, `none` for a rule that the two views do not spell alike.
-/

set_option autoImplicit false

namespace Flotestro.Firewall

open Library

/-- SOURCE: model.go:30-43 -/
structure Rule where
  family : Str
  table : Str
  chain : Str
  text : Str
  comment : Str

/-- SOURCE: nft_drift.go:33-41 -/
inductive DriftReason where
  | notPersisted
  | notLoaded
  | notComparable
  deriving DecidableEq

/-- A difference, with the rule it copies its fields from.  SOURCE: nft_drift.go:268-271 -/
structure Drift where
  reason : DriftReason
  rule : Rule
  detail : String

section
variable {κ : Type} [DecidableEq κ] (nftRuleKey : Rule → Option κ)

/-- One side of the comparison, with a hole where a rule has no key.  SOURCE: nft_drift.go:275-288 -/
def nftKeys (rules : List Rule) : List (Rule × Option κ) := rules.map fun rule => (rule, nftRuleKey rule)

def unreadable (keys : List (Rule × Option κ)) : List Rule :=
  (keys.filter fun rule => rule.2.isNone).map Prod.fst

/-- SOURCE: nft_drift.go:290-296 -/
def nftCounts (keys : List (Rule × Option κ)) : Multiset κ := keys.filterMap Prod.snd

/-- The rules that find no counterpart in what remains of the other side.
SOURCE: nft_drift.go:232-243 and 251-262 -/
def unmatched : List (Rule × Option κ) → Multiset κ → List Rule
  | [], _ => []
  | (_, none) :: rules, remaining => unmatched rules remaining
  | (rule, some key) :: rules, remaining =>
    if key ∈ remaining then unmatched rules (remaining.erase key) else rule :: unmatched rules remaining

/-- SOURCE: nft_drift.go:221-264 -/
def nftDrift (filed loaded : List Rule) : List Drift :=
  let filedKeys := nftKeys nftRuleKey filed
  let loadedKeys := nftKeys nftRuleKey loaded
  let drift := ((unreadable filedKeys).map fun rule => ⟨.notComparable, rule,
      "the boot source writes this rule in a notation the kernel does not use, " ++
      "so the panel cannot say whether it is loaded"⟩) ++
    ((unreadable loadedKeys).map fun rule => ⟨.notComparable, rule,
      "the kernel holds this rule in a notation the boot source does not use, " ++
      "so the panel cannot say whether it is kept"⟩) ++
    (unmatched filedKeys (nftCounts loadedKeys)).map fun rule => ⟨.notLoaded, rule,
      "the host restores this rule at boot and the kernel is not filtering with it; " ++
      "it takes effect only when the ruleset is loaded again"⟩
  if (unreadable filedKeys).length > 0 then drift
  else drift ++ (unmatched loadedKeys (nftCounts filedKeys)).map fun rule => ⟨.notPersisted, rule,
    "the kernel filters with this rule and the boot source does not carry it; " ++
    "it disappears at the next reboot"⟩

end

end Flotestro.Firewall
