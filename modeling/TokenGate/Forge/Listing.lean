/-
Listings of teams: which pages a sequence of deliveries begins with, and how they lead from one to the next.

A page leads on where the first Link header of its response names a page that follows, at the forge. A listing is
complete with the first page that names none.
-/
import TokenGate.Forge.Flow

namespace TokenGate.Forge

/-- The response is this page of teams, and its first Link header names the page that follows. -/
structure Response.IsPage (r : Response) (p : Page) : Prop where
  unlimited : ¬ r.Limited
  success : r.isSuccess = true
  teams : ∃ bytes, r.body = .some bytes ∧ Json.decodeBytes Team.page? bytes = .some p.teams
  next : r.nextTarget?.map Url.parse = p.next.map .ok

/-- The page that follows is known, and it is one of the forge. -/
def Page.LeadsOn (api : Api) (p : Page) : Prop :=
  ∃ next, p.next = .some next ∧ next.isSameOrigin api.base = true

namespace Listing

/-- The deliveries begin with the pages `ps`, each of which leads on. -/
structure Begins (api : Api) (ds : Nat → Delivery) (ps : List Page) : Prop where
  pages : ∀ i p, ps[i]? = .some p → ∃ r, ds i = .received r ∧ r.IsPage p
  leadOn : ∀ p ∈ ps, p.LeadsOn api

/-- The deliveries begin with the pages `ps`, each of which leads on, and then comes `last`, which names no other. -/
structure Complete (api : Api) (ds : Nat → Delivery) (ps : List Page) (last : Page) : Prop extends
    Begins api ds ps where
  last_isPage : ∃ r, ds ps.length = .received r ∧ r.IsPage last
  last_next : last.next = .none

/-- After pages that lead on, fewer than are read at most, there comes a response of which `P` holds. -/
def Reaches (api : Api) (ds : Nat → Delivery) (P : Response → Prop) : Prop :=
  ∃ ps r, Begins api ds ps ∧ ps.length < maxPages ∧ ds ps.length = .received r ∧ P r

end Listing

end TokenGate.Forge
