/-
What the gate does with a request, as it is owed to it.

The token that is found is the one that the request bears (`bearer?_eq_some_iff`), and a request is refused at the gate
when it claims an identity or bears no token (`screen_of_claims`, `screen_of_tokenless`). All headers of an identity
are written or none is (`identityHeaders?_of_canTell`, `identityHeaders?_of_not_canTell`), and a refusal has none of
them (`Refusal.not_isReserved`).
-/
import TokenGate.Gate.Admission
import TokenGate.Proofs.Http.Headers
import TokenGate.Proofs.Text.Digits
import TokenGate.Proofs.Text.Utf8
import TokenGate.Proofs.Traffic.Freshness

namespace TokenGate

namespace Gate

/-! ## Admission -/

section

variable {hs : Http.Headers} {token : String}

theorem behind?_eq_some_iff {front s rest : List Char} : behind? front s = .some rest ↔ s = front ++ rest := by
  unfold behind?
  constructor
  · intro h
    split at h <;> cases h
    next hfront => exact (List.prefix_iff_eq_append.1 (List.isPrefixOf_iff_prefix.1 hfront)).symm
  · rintro rfl
    rw [if_pos (List.isPrefixOf_iff_prefix.2 (List.prefix_append ..)), List.drop_left]

/-- The token that is found is the one that the request bears. -/
theorem bearer?_eq_some_iff : bearer? hs = .some token ↔ Bears hs token := by
  have htoken : bearer? hs = .some token ↔
      ∃ value, hs.firstText? "authorization" = .some value ∧
        ∃ rest, value.toList = "Bearer ".toList ++ rest ∧ Text.IsCore rest token.toList := by
    simp only [bearer?, bind, Option.bind_eq_some_iff, behind?_eq_some_iff]
    refine exists_congr fun value => and_congr_right fun _ => exists_congr fun rest => and_congr_right fun _ => ?_
    constructor
    · intro h
      split at h <;> cases h
      next hne => rw [String.toList_ofList]; exact Text.isCore_trim hne
    · intro h
      rw [h.trim_eq]
      split
      next hnil => exact absurd hnil h.ne_nil
      next => rw [String.ofList_toList]
  rw [htoken]
  simp only [Http.Headers.firstText?_eq_some_iff, Http.Header.text?_eq_some_iff]
  constructor
  · rintro ⟨value, ⟨before, h, after, hsplit, hbefore, hname, hbytes, hvalue⟩, rest, hbearer, hcore⟩
    exact ⟨before, h, after, rest, hsplit, hbefore, hname, hbytes, hvalue ▸ hbearer, hcore⟩
  · rintro ⟨before, h, after, rest, hsplit, hbefore, hname, hbytes, hbearer, hcore⟩
    refine ⟨String.ofList (h.value.map fun b => Char.ofNat b.toNat),
      ⟨before, h, after, hsplit, hbefore, hname, hbytes, String.toList_ofList⟩, rest, ?_, hcore⟩
    rw [String.toList_ofList, hbearer]

theorem injected?_eq_none_iff : injected? hs = .none ↔ ¬ ClaimsIdentity hs := by
  have hreserved (h : Http.Header) : reserved.isPrefixOf h.lowerName.toList = true ↔ IsReserved h.name := by
    rw [List.isPrefixOf_iff_prefix, Http.Header.lowerName, String.toList_ofList]
    rfl
  rw [injected?, Option.map_eq_none_iff, List.find?_eq_none]
  simp only [hreserved, ClaimsIdentity, not_exists, not_and]

theorem screen_of_claims (h : ClaimsIdentity hs) : ∃ name, screen hs = .error (.injected name) := by
  cases hinjected : injected? hs with
  | none => exact absurd h (injected?_eq_none_iff.1 hinjected)
  | some name => exact ⟨name, by rw [screen, hinjected]⟩

theorem screen_of_bears (hclaims : ¬ ClaimsIdentity hs) (h : Bears hs token) : screen hs = .ok token := by
  rw [screen, injected?_eq_none_iff.2 hclaims, bearer?_eq_some_iff.2 h]

theorem screen_of_tokenless (hclaims : ¬ ClaimsIdentity hs) (h : ∀ token, ¬ Bears hs token) :
    screen hs = .error .noCredentials := by
  have hnone : bearer? hs = .none := Option.eq_none_iff_forall_ne_some.2 fun token htoken =>
    h token (bearer?_eq_some_iff.1 htoken)
  rw [screen, injected?_eq_none_iff.2 hclaims, hnone]

/-- What is let in claims no identity, and bears the token that is to be validated. -/
theorem of_screen_eq_ok (h : screen hs = .ok token) : ¬ ClaimsIdentity hs ∧ Bears hs token := by
  have hclaims : ¬ ClaimsIdentity hs := fun hclaims => by
    obtain ⟨name, hname⟩ := screen_of_claims hclaims
    rw [hname] at h
    cases h
  refine ⟨hclaims, ?_⟩
  by_cases hbears : ∃ token', Bears hs token'
  · obtain ⟨token', hbears⟩ := hbears
    obtain rfl : token' = token := Except.ok.inj ((screen_of_bears hclaims hbears).symm.trans h)
    exact hbears
  · rw [screen_of_tokenless hclaims fun token' h' => hbears ⟨token', h'⟩] at h
    cases h

end

/-! ## What can be written -/

/-- A character has bytes that may be written if it may be written itself. -/
theorem writable_encodeChar_iff {c : Char} :
    (∀ b ∈ String.utf8EncodeChar c, 0x20 ≤ b ∧ b ≠ 0x7F ∨ b = 0x09) ↔
      0x20 ≤ c.toNat ∧ c.toNat ≠ 0x7F ∨ c = '\t' := by
  have hbyte (b : UInt8) : 0x20 ≤ b ∧ b ≠ 0x7F ∨ b = 0x09 ↔ 0x20 ≤ b.toNat ∧ b.toNat ≠ 0x7F ∨ b.toNat = 0x09 := by
    rw [UInt8.le_iff_toNat_le, ne_eq, ← UInt8.toNat_inj, ← UInt8.toNat_inj]
    rfl
  have htab : c = '\t' ↔ c.toNat = 0x09 := by rw [← Char.toNat_inj]; rfl
  simp only [hbyte, htab]
  by_cases hascii : c.toNat < 128
  · rw [Text.Utf8.encodeChar_of_lt hascii, List.forall_mem_singleton,
      UInt8.toNat_ofNat_of_lt' (Nat.lt_trans hascii (by decide))]
  · refine iff_of_true (fun b hb => ?_) (by omega)
    have habove := Text.Utf8.le_of_mem_encodeChar (Nat.le_of_not_lt hascii) b hb
    omega

theorem isWritable_iff {s : String} : isWritable s = true ↔ IsWritable s := by
  simp only [isWritable, IsWritable, Text.Utf8.encode, List.all_eq_true, List.forall_mem_flatMap,
    writable_encodeChar_iff]
  simp

theorem ofList_decimalInt (i : Int) : String.ofList (Text.decimalInt i) = toString i := by
  cases i with
  | ofNat n => rfl
  | negSucc n => rw [Text.decimalInt, ← List.singleton_append, String.ofList_append]; rfl

theorem teamsValue_eq (teams : List String) : teamsValue teams = ",".intercalate teams := by
  rw [← String.toList_inj, String.toList_intercalate, teamsValue, String.toList_ofList]
  induction teams with
  | nil => rfl
  | cons team teams ih =>
    cases teams with
    | nil => simp [Text.join]
    | cons next teams =>
      simp only [List.map_cons, Text.join, List.intercalate_cons_cons] at ih ⊢
      rw [ih]
      simp

/-- Numbers are written in digits. -/
theorem isWritable_decimalInt (i : Int) : isWritable (String.ofList (Text.decimalInt i)) = true := by
  have hdigits {n : Nat} : ∀ c ∈ Text.decimal n, 0x20 ≤ c.toNat ∧ c.toNat ≠ 0x7F := by
    intro c hc
    have hdigit := Text.isDigit_of_mem_decimal hc
    simp only [Char.isDigit, Bool.and_eq_true, decide_eq_true_eq, ge_iff_le, UInt32.le_iff_toNat_le] at hdigit
    have hlow : 48 ≤ c.toNat := hdigit.1
    have hhigh : c.toNat ≤ 57 := hdigit.2
    omega
  rw [isWritable, String.toList_ofList, List.all_eq_true]
  intro c hc
  cases i with
  | ofNat n => simp [hdigits c hc]
  | negSucc n =>
    rcases List.mem_cons.1 hc with rfl | hc
    · rfl
    · simp [hdigits c hc]

/-! ## Identities in headers -/

section

variable {i : Identity}

/-- All headers of an identity are written, if all of them can be. -/
theorem identityHeaders?_eq (i : Identity) :
    identityHeaders? i = if (told i).all fun h => isWritable h.2 then .some (told i) else .none := by
  unfold identityHeaders? told
  rw [ofList_decimalInt, teamsValue_eq]
  cases i.email <;> rfl

theorem canTell_iff : CanTell i ↔ ((told i).all fun h => isWritable h.2) = true := by
  have hid : isWritable (toString i.id.toInt) = true := ofList_decimalInt _ ▸ isWritable_decimalInt _
  rw [told, List.all_append, List.all_cons, List.all_cons, List.all_cons, List.all_cons, hid]
  cases hemail : i.email with
  | none =>
    simp only [Option.map_none, Option.toList_none, List.all_nil, Bool.and_eq_true, isWritable_iff, and_true, true_and]
    exact ⟨fun h => ⟨h.login, h.org, h.teams⟩, fun ⟨hlogin, horg, hteams⟩ => ⟨hlogin, horg, hteams, by simp [hemail]⟩⟩
  | some e =>
    simp only [Option.map_some, Option.toList_some, List.all_cons, List.all_nil, Bool.and_eq_true, isWritable_iff,
      and_true, true_and]
    constructor
    · exact fun h => ⟨⟨h.login, h.org, h.teams⟩, h.email e hemail⟩
    · rintro ⟨⟨hlogin, horg, hteams⟩, he⟩
      exact ⟨hlogin, horg, hteams, fun e' he' => by rwa [← Option.some.inj (hemail.symm.trans he')]⟩

theorem identityHeaders?_of_canTell (h : CanTell i) : identityHeaders? i = .some (told i) := by
  rw [identityHeaders?_eq, if_pos (canTell_iff.1 h)]

theorem identityHeaders?_of_not_canTell (h : ¬ CanTell i) : identityHeaders? i = .none := by
  rw [identityHeaders?_eq, if_neg fun hall => h (canTell_iff.2 hall)]

end

/-! ## Responses -/

theorem Refusal.status_ne (r : Refusal) : r.response.status ≠ 200 := by
  rw [status_response]
  cases r with
  | denied d _ => cases d <;> simp [Refusal.status]
  | _ => simp [Refusal.status]

/-- A refusal tells no identity. -/
theorem Refusal.not_isReserved (r : Refusal) : ∀ h ∈ r.response.headers, ¬ IsReserved h.1 := by
  have hplain : ¬ IsReserved "content-type" ∧ ¬ IsReserved "retry-after" := by
    unfold IsReserved
    decide
  unfold Refusal.response
  split <;> simp [Http.Response.ofJson, Http.Response.ofText, hplain]

section

variable {hs : Http.Headers} {validated : String → Except ValidationError Identity} {token : String}

theorem Bears.unique {token' : String} (h : Bears hs token) (h' : Bears hs token') : token' = token :=
  Option.some.inj ((bearer?_eq_some_iff.2 h').symm.trans (bearer?_eq_some_iff.2 h))

/-- Whoever is not let through is refused. -/
theorem Answers.of_refusal {r : Refusal}
    (hlets : ¬ ClaimsIdentity hs → ∀ token i, Bears hs token → validated token = .ok i → ¬ CanTell i)
    (hclaiming : ClaimsIdentity hs → r.status = 403)
    (htokenless : ¬ ClaimsIdentity hs → (∀ token, ¬ Bears hs token) → r.status = 401)
    (huntold : ¬ ClaimsIdentity hs → ∀ token i, Bears hs token → validated token = .ok i → r.status = 500) :
    Answers hs validated r.response where
  lets := iff_of_false r.status_ne fun ⟨hclaims, token, i, hbears, hi, htell⟩ => hlets hclaims token i hbears hi htell
  tells h := absurd h r.status_ne
  silent _ := r.not_isReserved
  claiming h := (status_response r).trans (hclaiming h)
  tokenless hclaims h := (status_response r).trans (htokenless hclaims h)
  untold hclaims token i hbears hi _ := (status_response r).trans (huntold hclaims token i hbears hi)

theorem answers_of_claims (h : ClaimsIdentity hs) (name : String) :
    Answers hs validated (Refusal.injected name).response :=
  .of_refusal (absurd h) (fun _ => rfl) (absurd h) (absurd h)

theorem answers_of_tokenless (hclaims : ¬ ClaimsIdentity hs) (h : ∀ token, ¬ Bears hs token) :
    Answers hs validated Refusal.noCredentials.response :=
  .of_refusal (fun _ token _ hbears => absurd hbears (h token)) (absurd · hclaims) (fun _ _ => rfl)
    fun _ token _ hbears => absurd hbears (h token)

/-- A request that is let in is answered with what the validation of its token comes to. -/
theorem answers_respond (hclaims : ¬ ClaimsIdentity hs) (hbears : Bears hs token) (b : Budget) (now : Nat) :
    Answers hs validated (respond b now (validated token)) := by
  have hfound (h : ∀ token, ¬ Bears hs token) {p : Prop} : p := absurd hbears (h token)
  cases hvalidated : validated token with
  | error e =>
    -- Nothing else is borne, and what is borne does not come to an identity.
    have hnone {token' : String} {i : Identity} (h' : Bears hs token') (hi : validated token' = .ok i) {p : Prop} :
        p := by
      rw [hbears.unique h', hvalidated] at hi
      cases hi
    exact .of_refusal (fun _ _ _ h' hi => hnone h' hi) (absurd · hclaims) (fun _ h => hfound h)
      fun _ _ _ h' hi => hnone h' hi
  | ok i =>
    have hsame {token' : String} {i' : Identity} (h' : Bears hs token') (hi : validated token' = .ok i') : i' = i := by
      rw [hbears.unique h', hvalidated] at hi
      exact (Except.ok.inj hi).symm
    by_cases htell : CanTell i
    · have hrespond : respond b now (.ok i) = ⟨200, told i, ""⟩ := by
        rw [respond, answer, identityHeaders?_of_canTell htell]
      rw [hrespond]
      refine ⟨iff_of_true rfl ⟨hclaims, token, i, hbears, hvalidated, htell⟩, ?_, absurd rfl, (absurd · hclaims),
        fun _ h => hfound h, ?_⟩
      · intro _ token' i' h' hi
        rw [hsame h' hi]
      · intro _ token' i' h' hi hnot
        exact absurd (hsame h' hi ▸ htell) hnot
    · have hrespond : respond b now (.ok i) = Refusal.unwritable.response := by
        rw [respond, answer, identityHeaders?_of_not_canTell htell]
      rw [hrespond]
      exact .of_refusal (fun _ _ _ h' hi => hsame h' hi ▸ htell) (absurd · hclaims) (fun _ h => hfound h)
        fun _ _ _ _ _ => rfl

/-- Where only the head is asked for, nothing else is left out. -/
theorem Answers.head {r : Http.Response} (h : Answers hs validated r) : Answers hs validated r.head :=
  ⟨h.lets, h.tells, h.silent, h.claiming, h.tokenless, h.untold⟩

end

end Gate

end TokenGate
