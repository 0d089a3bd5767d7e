/-
What is between the service and a forge.
-/
import TokenGate.Forge.Calls
import TokenGate.Simulation

namespace TokenGate.Forge

/-- The outside of a host from which no forge can be reached: each request fails at once. -/
def unreachable : Outside Answer :=
  fun _ => .some (0, .failed)

end TokenGate.Forge
