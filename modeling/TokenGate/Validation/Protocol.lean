/-
The protocol of a validation that the cache does not answer: which call comes next, or how it ends, when the calls so
far have got their replies.

`Protocol` has one row for each way on. A reply that lets the validation go on, or end well, has a row of its own, and
so has each failure that means something at its call. Every other failure is one row, whatever the call.
-/
import TokenGate.Exchange.Transcript
import TokenGate.Validation

namespace TokenGate

namespace Call

/-- What a call is to find out. -/
def endpoint : Call → Endpoint
  | whoAmI _ => .user
  | checkMembership _ _ _ => .membership
  | listGroups _ _ => .teams

/-- The reply that a call has failed. -/
def failed : (c : Call) → ProviderError → c.Reply
  | whoAmI _, e => .error e
  | checkMembership _ _ _, e => .error e
  | listGroups _ _, e => .error e

/-- A call may fail in this way, and it means something in particular. -/
inductive Expects : Call → ProviderError → Prop where
  | rejection {token : String} : Expects (whoAmI token) .unauthorized
  | stranger {token org login : String} : Expects (checkMembership token org login) .notMember
  | limit {c : Call} : Expects c .rateLimited

end Call

namespace Validation

/-- What a validation does next: it makes a call, or it stops with a result and what the cache is to remember. -/
inductive Move where
  | call (c : Call)
  | stop (result : Except ValidationError Identity) (memo : Option Outcome)

/-- What the cache is to remember with a move. -/
def Move.memo : Move → Option Outcome
  | call _ => .none
  | stop _ memo => memo

/-- After the replies of the transcript, in order, a validation of `token` makes the move. -/
inductive Protocol (policy : Policy) (token : String) : List (Answered Call.Reply) → Move → Prop where
  | owner : Protocol policy token [] (.call (.whoAmI token))
  | membership {owner : Owner} : ¬ (policy.rejectClassicPats = true ∧ owner.isClassic = true) →
      Protocol policy token [⟨.whoAmI token, .ok owner⟩] (.call (.checkMembership token policy.org owner.profile.login))
  | roster {owner : Owner} : ¬ (policy.rejectClassicPats = true ∧ owner.isClassic = true) →
      Protocol policy token
        [⟨.whoAmI token, .ok owner⟩, ⟨.checkMembership token policy.org owner.profile.login, .ok ()⟩]
        (.call (.listGroups token policy.org))
  | grant {owner : Owner} {teams : List Team} {i : Identity} :
      ¬ (policy.rejectClassicPats = true ∧ owner.isClassic = true) →
      i = { login := owner.profile.login
            id := owner.profile.id
            email := owner.profile.email
            org := policy.org
            teams := (teams.filter fun t => Text.sameLetters t.org.toList policy.org.toList).map Team.slug } →
      Protocol policy token
        [⟨.whoAmI token, .ok owner⟩, ⟨.checkMembership token policy.org owner.profile.login, .ok ()⟩,
         ⟨.listGroups token policy.org, .ok teams⟩]
        (.stop (.ok i) (.some (.authorized i)))
  | classic {owner : Owner} : policy.rejectClassicPats = true → owner.isClassic = true →
      Protocol policy token [⟨.whoAmI token, .ok owner⟩] (.stop (.error .classicPat) .none)
  | rejected : Protocol policy token [⟨.whoAmI token, .error .unauthorized⟩]
      (.stop (.error .unauthorized) (.some (.denied .unauthorized)))
  | stranger {log : List (Answered Call.Reply)} {org login : String} :
      Protocol policy token log (.call (.checkMembership token org login)) →
      Protocol policy token (log ++ [⟨.checkMembership token org login, .error .notMember⟩])
        (.stop (.error .notMember) .none)
  | limited {log : List (Answered Call.Reply)} {c : Call} : Protocol policy token log (.call c) →
      Protocol policy token (log ++ [⟨c, c.failed .rateLimited⟩]) (.stop (.error .rateLimited) .none)
  | failed {log : List (Answered Call.Reply)} {c : Call} {e : ProviderError} : Protocol policy token log (.call c) →
      ¬ c.Expects e →
      Protocol policy token (log ++ [⟨c, c.failed e⟩])
        (.stop (.error (.internal (.whileAsking c.endpoint :: e.account))) .none)

end Validation

end TokenGate
