/-
An outside that follows a script: for each token, what a provider replies to the three calls, and after how long.
-/
import TokenGate.Simulation

namespace TokenGate

/-- A reply and the time that it takes; where there is no reply, the call hangs. -/
structure ScriptedReply (α : Type) where
  delay : Nat
  reply : Option (Except ProviderError α)

/-- What a provider replies to the calls about one token. -/
structure TokenScript where
  owner : ScriptedReply Owner
  membership : ScriptedReply Unit
  roster : ScriptedReply (List Team)

/-- What a provider replies to all calls. -/
abbrev Script := List (String × TokenScript)

namespace TokenScript

/-- What is replied about a token that is not in the script: it is rejected, but its owner would be a member
without teams. -/
def unknown : TokenScript where
  owner := ⟨0, .some (.error .unauthorized)⟩
  membership := ⟨0, .some (.ok ())⟩
  roster := ⟨0, .some (.ok [])⟩

end TokenScript

namespace Script

/-- What is replied about a token. -/
def forToken (s : Script) (token : String) : TokenScript :=
  (s.lookup token).getD .unknown

/-- The script with one entry put in place of that for the same token. -/
def insert (s : Script) (token : String) (t : TokenScript) : Script :=
  (token, t) :: s.filter fun e => e.1 != token

/-- The outside that follows the script. -/
def outside (s : Script) : Outside Call.Reply
  | .whoAmI token => let r := (s.forToken token).owner; r.reply.map fun x => (r.delay, x)
  | .checkMembership token _ _ => let r := (s.forToken token).membership; r.reply.map fun x => (r.delay, x)
  | .listGroups token _ => let r := (s.forToken token).roster; r.reply.map fun x => (r.delay, x)

end Script

end TokenGate
