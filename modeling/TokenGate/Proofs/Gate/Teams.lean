/-
What a reader behind the gate learns of the teams.

The teams are told in one header, with commas between them (`toldTeams_respond`). A reader who cuts its value at the
commas finds the teams again exactly if there are any and none holds a comma (`readTeams_intercalate_iff`), and teams
without commas are told apart, except that one team with an empty slug is told like none (`teams_told`).
-/
import TokenGate.Proofs.Gate.Screening
import TokenGate.Proofs.Text.Pieces

namespace TokenGate.Gate

/-- The values of the headers of a response that tell the teams. -/
def toldTeams (r : Http.Response) : List String :=
  (r.headers.filter fun h => h.1 == "x-auth-user-teams").map Prod.snd

/-- The teams that a reader finds in a header value who cuts it at its commas. -/
def readTeams (value : String) : List String :=
  (value.toList.splitOn ',').map String.ofList

/-- An identity that is told has one header for the teams. -/
theorem toldTeams_respond {b : Budget} {now : Nat} {i : Identity} (h : (respond b now (.ok i)).status = 200) :
    toldTeams (respond b now (.ok i)) = [",".intercalate i.teams] := by
  obtain ⟨i', hi', hheaders⟩ := respond_ok h
  obtain rfl := Except.ok.inj hi'
  rw [identityHeaders?_eq] at hheaders
  split at hheaders
  next =>
    rw [toldTeams, ← Option.some.inj hheaders, told]
    cases i.email <;> rfl
  next => cases hheaders

theorem map_ofList_eq_iff {ls : List (List Char)} {ts : List String} :
    ls.map String.ofList = ts ↔ ls = ts.map String.toList := by
  constructor
  · rintro rfl
    simp [Function.comp_def]
  · rintro rfl
    simp [Function.comp_def]

theorem readTeams_intercalate_iff {teams : List String} :
    readTeams (",".intercalate teams) = teams ↔ teams ≠ [] ∧ ∀ slug ∈ teams, ',' ∉ slug.toList := by
  have hlists : ([','].intercalate (teams.map String.toList)).splitOn ',' = teams.map String.toList ↔ _ :=
    Text.splitOn_intercalate_iff
  rw [List.forall_mem_map, ne_eq, List.map_eq_nil_iff] at hlists
  rw [← hlists, readTeams, map_ofList_eq_iff, String.toList_intercalate]
  rfl

/-- Teams without commas are told by what is written of them, except that one empty slug is written like none. -/
theorem intercalate_teams_eq_iff {ts us : List String} (hts : ∀ slug ∈ ts, ',' ∉ slug.toList)
    (hus : ∀ slug ∈ us, ',' ∉ slug.toList) :
    ",".intercalate ts = ",".intercalate us ↔ ts = us ∨ ts = [] ∧ us = [""] ∨ ts = [""] ∧ us = [] := by
  have hlists := Text.intercalate_eq_intercalate_iff (List.forall_mem_map.2 hts) (List.forall_mem_map.2 hus)
  have hempty {vs : List String} : vs.map String.toList = [[]] ↔ vs = [""] := by
    rw [eq_comm, ← map_ofList_eq_iff, eq_comm]
    rfl
  have hsame : ts.map String.toList = us.map String.toList ↔ ts = us := by
    rw [← map_ofList_eq_iff, map_ofList_eq_iff.2 rfl]
  rw [hsame, List.map_eq_nil_iff, List.map_eq_nil_iff, hempty, hempty] at hlists
  rw [← hlists, ← String.toList_inj, String.toList_intercalate, String.toList_intercalate]
  rfl

/-- **What the header of the teams tells.** Whoever is let through has exactly one header that tells the teams. Cut at
its commas, its value gives the teams back, in their order and with their repetitions, exactly if there are any and no
slug holds a comma. Of two identities whose slugs hold no commas, the values are the same exactly if the teams are, or if
the one has no team and the other one team with an empty slug; so where no slug is empty either, the value determines
the teams. -/
theorem teams_told {b b' : Budget} {now now' : Nat} {i j : Identity} (hi : (respond b now (.ok i)).status = 200)
    (hj : (respond b' now' (.ok j)).status = 200) :
    ∃ v w, toldTeams (respond b now (.ok i)) = [v] ∧ toldTeams (respond b' now' (.ok j)) = [w] ∧
      (readTeams v = i.teams ↔ i.teams ≠ [] ∧ ∀ slug ∈ i.teams, ',' ∉ slug.toList) ∧
      ((∀ slug ∈ i.teams ++ j.teams, ',' ∉ slug.toList) →
        (v = w ↔ i.teams = j.teams ∨ i.teams = [] ∧ j.teams = [""] ∨ i.teams = [""] ∧ j.teams = []) ∧
        ((∀ slug ∈ i.teams ++ j.teams, slug ≠ "") → (v = w ↔ i.teams = j.teams))) := by
  refine ⟨_, _, toldTeams_respond hi, toldTeams_respond hj, readTeams_intercalate_iff, fun hcommas => ?_⟩
  rw [List.forall_mem_append] at hcommas
  have hsame := intercalate_teams_eq_iff hcommas.1 hcommas.2
  refine ⟨hsame, fun hslugs => ?_⟩
  rw [List.forall_mem_append] at hslugs
  have hone {teams : List String} (h : ∀ slug ∈ teams, slug ≠ "") : teams ≠ [""] := by
    rintro rfl
    exact h "" (List.mem_singleton_self _) rfl
  rw [hsame]
  simp [hone hslugs.1, hone hslugs.2]

/-- A caller without teams is told like one whose team has an empty slug, and the team is what is read back. Repeated
teams in another order are told apart. -/
theorem teams_told_empty :
    let caller (teams : List String) : Identity := ⟨"alice", 42, .none, "acme", teams⟩
    let r (teams : List String) := respond Budget.initial 0 (.ok (caller teams))
    ((r []).status = 200 ∧ (r [""]).status = 200) ∧
      (∃ v, toldTeams (r []) = [v] ∧ toldTeams (r [""]) = [v] ∧ readTeams v = [""]) ∧
      ((r ["sre", "infra", "sre"]).status = 200 ∧ (r ["infra", "sre", "sre"]).status = 200) ∧
      ∃ v w, toldTeams (r ["sre", "infra", "sre"]) = [v] ∧ toldTeams (r ["infra", "sre", "sre"]) = [w] ∧ v ≠ w ∧
        readTeams v = ["sre", "infra", "sre"] := by
  intro caller r
  have hstatus : ((r []).status = 200 ∧ (r [""]).status = 200) ∧
      (r ["sre", "infra", "sre"]).status = 200 ∧ (r ["infra", "sre", "sre"]).status = 200 := by decide
  refine ⟨hstatus.1, ?_, hstatus.2, ?_⟩
  · obtain ⟨v, w, hv, hw, hread, hsame⟩ := teams_told hstatus.1.2 hstatus.1.1
    obtain rfl : v = w := (hsame (by decide)).1.2 (.inr (.inr ⟨rfl, rfl⟩))
    exact ⟨v, hw, hv, hread.2 (by decide)⟩
  · obtain ⟨v, w, hv, hw, hread, hsame⟩ := teams_told hstatus.2.1 hstatus.2.2
    exact ⟨v, w, hv, hw, fun h => absurd (((hsame (by decide)).2 (by decide)).1 h) (by decide), hread.2 (by decide)⟩

end TokenGate.Gate
