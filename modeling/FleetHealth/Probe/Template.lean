import FleetHealth.Policy.Snapshot
/-!
# The URL of a probe

A policy names the URL to probe by a template, in which a placeholder stands for the probed address.
-/

namespace FleetHealth.Probe

/-- The host of a URL for an address: an address with a colon stands in brackets. -/
def hostText (ip : List Char) : List Char :=
  if ip.contains ':' && ip.head? != some '[' then '[' :: (ip ++ [']']) else ip

/-- The text with `new` in place of every occurrence of `old`, found from the left and without overlap,
after the characters in `acc` (last first). -/
def replaceFrom (old new acc : List Char) (cs : List Char) : List Char :=
  match cs with
  | [] => acc.reverse
  | c :: rest =>
    if old.isPrefixOf (c :: rest) && !old.isEmpty then
      replaceFrom old new (new.reverse ++ acc) ((c :: rest).drop old.length)
    else replaceFrom old new (c :: acc) rest
termination_by cs.length
decreasing_by
  · rename_i h
    simp only [Bool.and_eq_true, Bool.not_eq_true', List.isEmpty_eq_false_iff] at h
    have := List.length_pos_iff.mpr h.2
    simp only [List.length_drop, List.length_cons]
    omega
  · simp

/-- The URL for an address: the template with the host in place of every placeholder. -/
def url (template ip : String) : String :=
  String.ofList
    (replaceFrom hostPlaceholder.toList (hostText ip.toList) [] template.toList)

end FleetHealth.Probe
