/-
Reading an authority.

Each of the three readers is told by what it leaves: the user goes to the last at sign (`readUserinfo_append`), the
host to the first colon outside of brackets (`hostLength_append`), and the port to where the authority ends
(`exists_readPort_iff`). So an authority of the web is read exactly where it names a host (`exists_readAuthority_iff`),
and an address of the web is read exactly where its authority is (`exists_parse_iff`).
-/
import Mathlib.Data.List.Induction
import Mathlib.Data.List.TakeWhile
import TokenGate.Proofs.Forge.Origin
import TokenGate.Proofs.Text.Digits
import TokenGate.Url.Authority

namespace TokenGate.Url

theorem endsAuthority_iff {c : Char} : endsAuthority true c = true ↔ c ∈ authorityEnds := by
  simp [endsAuthority, isSlash, authorityEnds, or_assoc]

theorem isSlash_iff {c : Char} : isSlash true c = true ↔ c = '/' ∨ c = '\\' := by
  simp [isSlash]

/-! ## The user -/

/-- As much of `s` as belongs to an authority. -/
def authority (s : List Char) : List Char :=
  s.takeWhile fun c => !endsAuthority true c

theorem not_endsAuthority_iff {c : Char} : (!endsAuthority true c) = true ↔ c ∉ authorityEnds := by
  rw [Bool.not_eq_true', ← Bool.not_eq_true, endsAuthority_iff]

theorem notMem_of_mem_authority {s : List Char} {c : Char} (h : c ∈ authority s) : c ∉ authorityEnds := by
  have hc := List.mem_takeWhile_imp h
  exact not_endsAuthority_iff.1 hc

theorem authority_append {a rest : List Char} (ha : ∀ c ∈ a, c ∉ authorityEnds)
    (hrest : ∀ c, rest.head? = .some c → c ∈ authorityEnds) : authority (a ++ rest) = a :=
  Text.takeWhile_append_of_head (fun c hc => not_endsAuthority_iff.2 (ha c hc))
    fun c hc => by simpa using endsAuthority_iff.2 (hrest c hc)

theorem exists_authority (s : List Char) :
    ∃ rest, s = authority s ++ rest ∧ ∀ c, rest.head? = .some c → c ∈ authorityEnds := by
  refine ⟨s.dropWhile fun c => !endsAuthority true c, List.takeWhile_append_dropWhile.symm, fun c hc => ?_⟩
  have hends := List.head?_dropWhile_not (fun c => !endsAuthority true c) s
  rw [hc] at hends
  exact endsAuthority_iff.1 (by simpa using hends)

/-- The text `user` goes as far as a user does, with `t` behind it. -/
structure EndsUser (user t : List Char) : Prop where
  within : ∀ c ∈ user, c ∉ authorityEnds
  user_end : user = [] ∨ ∃ u, user = u ++ ['@']
  last_at : '@' ∉ authority t

theorem exists_endsUser (s : List Char) : ∃ user t, s = user ++ t ∧ EndsUser user t := by
  by_cases hat : '@' ∈ authority s
  · obtain ⟨v, u, huv, hv⟩ := List.eq_append_cons_of_mem (List.mem_reverse.2 hat)
    have hsplit : authority s = (u.reverse ++ ['@']) ++ v.reverse := by
      rw [← List.reverse_reverse (authority s), huv]
      simp
    obtain ⟨rest, hs, hrest⟩ := exists_authority s
    have hplain : ∀ c ∈ (u.reverse ++ ['@']) ++ v.reverse, c ∉ authorityEnds := by
      intro c hc
      exact notMem_of_mem_authority (hsplit ▸ hc)
    refine ⟨u.reverse ++ ['@'], v.reverse ++ rest, ?_, ?_, .inr ⟨_, rfl⟩, ?_⟩
    · rw [← List.append_assoc, ← hsplit]
      exact hs
    · exact fun c hc => hplain c (List.mem_append_left _ hc)
    · rw [authority_append (fun c hc => hplain c (List.mem_append_right _ hc)) hrest]
      simpa using hv
  · exact ⟨[], s, rfl, by simp, .inl rfl, hat⟩

theorem EndsUser.authority_eq {user t : List Char} (h : EndsUser user t) :
    authority (user ++ t) = user ++ authority t := by
  obtain ⟨rest, ht, hrest⟩ := exists_authority t
  have hplain : ∀ c ∈ user ++ authority t, c ∉ authorityEnds := by
    intro c hc
    rcases List.mem_append.1 hc with hc | hc
    · exact h.within c hc
    · exact notMem_of_mem_authority hc
  have hauthority := authority_append hplain hrest
  rwa [List.append_assoc, ← ht] at hauthority

/-- What stands behind the last at sign is found from the end. -/
theorem takeWhile_reverse_at {u v : List Char} (hv : '@' ∉ v) :
    (u ++ '@' :: v).reverse.takeWhile (· != '@') = v.reverse := by
  have hbehind : ∀ c ∈ v.reverse, (c != '@') = true := by
    intro c hc
    rw [bne_iff_ne]
    rintro rfl
    exact hv (List.mem_reverse.1 hc)
  rw [List.reverse_append, List.reverse_cons, List.append_assoc]
  exact Text.takeWhile_append_of_head hbehind (by simp)

/-- A user is split off a text, unless there is no user and no host either. -/
theorem readUserinfo_append {user t : List Char} (h : EndsUser user t) :
    (∃ name password, readUserinfo true (user ++ t) = .ok (name, password, t)) ∨
      readUserinfo true (user ++ t) = .error .emptyHost ∧ ∃ c, t.head? = .some c ∧ c ∈ authorityEnds := by
  have hauthority : (user ++ t).takeWhile (fun c => !endsAuthority true c) = user ++ authority t := h.authority_eq
  rcases h.user_end with rfl | ⟨u, rfl⟩
  · left
    have hcontains : (authority t).contains '@' = false := by simpa using h.last_at
    refine ⟨[], [], ?_⟩
    simp only [readUserinfo, List.nil_append] at hauthority ⊢
    simp only [hauthority, hcontains, Bool.not_false, if_true]
  · have hat : (u ++ ['@']) ++ authority t = u ++ '@' :: authority t := by simp
    rw [hat] at hauthority
    have hcontains : (u ++ '@' :: authority t).contains '@' = true := by simp
    have hcount : (u ++ '@' :: authority t).length - (authority t).length - 1 = u.length := by
      rw [List.length_append, List.length_cons]
      omega
    have hdrop : ((u ++ ['@']) ++ t).drop (u.length + 1) = t := List.drop_left' (by simp)
    simp only [readUserinfo, hauthority, hcontains, takeWhile_reverse_at h.last_at, List.length_reverse, hcount,
      List.take_left, hdrop, Bool.not_true, Bool.false_eq_true, if_false]
    split
    next hnone =>
      rw [Bool.and_eq_true, Option.any_eq_true] at hnone
      obtain ⟨-, c, hc, hends⟩ := hnone
      exact .inr ⟨rfl, c, hc, endsAuthority_iff.1 hends⟩
    next => exact .inl ⟨_, _, rfl⟩

/-! ## The host -/

/-- Whether a bracket is open behind `s`, when one was open in front of it or not. -/
def openAfter (inBrackets : Bool) (s : List Char) : Bool :=
  s.foldl (fun b c => c == '[' || (b && c != ']')) inBrackets

theorem openAfter_eq_true_iff {s : List Char} : openAfter false s = true ↔ IsOpen s := by
  induction s using List.reverseRecOn with
  | nil => simp [openAfter, IsOpen]
  | append_singleton s c ih =>
    have hstep : openAfter false (s ++ [c]) = (c == '[' || (openAfter false s && c != ']')) := by simp [openAfter]
    rw [hstep, Bool.or_eq_true, Bool.and_eq_true, ih, beq_iff_eq, bne_iff_ne]
    constructor
    · rintro (rfl | ⟨⟨before, inner, rfl, hinner⟩, hc⟩)
      · exact ⟨s, [], rfl, by simp⟩
      · exact ⟨before, inner ++ [c], by simp, by simp [hinner, Ne.symm hc]⟩
    · rintro ⟨before, inner, h, hinner⟩
      rcases List.eq_nil_or_concat inner with rfl | ⟨inner, d, rfl⟩
      · left
        exact List.singleton_inj.1 (List.append_inj_right' h rfl)
      · right
        have h' : s ++ [c] = (before ++ '[' :: inner) ++ [d] := by simpa using h
        obtain ⟨rfl, hcd⟩ := List.append_inj' h' rfl
        obtain rfl := List.singleton_inj.1 hcd
        simp only [List.concat_eq_append, List.mem_append, List.mem_singleton, not_or] at hinner
        exact ⟨⟨before, inner, rfl, hinner.1⟩, Ne.symm hinner.2⟩

/-- The text `host` goes as far as a host does, with `back` behind it. -/
structure EndsHost (inBrackets : Bool) (host back : List Char) : Prop where
  within : ∀ a c b, host = a ++ c :: b → c ∉ authorityEnds ∧ (c = ':' → openAfter inBrackets a = true)
  ending : ∀ c, back.head? = .some c → c ∈ authorityEnds ∨ c = ':' ∧ openAfter inBrackets host = false

theorem EndsHost.cons {inBrackets : Bool} {c : Char} {host back : List Char} (hc : c ∉ authorityEnds)
    (hcolon : c = ':' → inBrackets = true)
    (h : EndsHost (c == '[' || (inBrackets && c != ']')) host back) : EndsHost inBrackets (c :: host) back := by
  refine ⟨fun a d b hd => ?_, h.ending⟩
  cases a with
  | nil =>
    obtain ⟨rfl, -⟩ := List.cons.inj hd
    exact ⟨hc, hcolon⟩
  | cons a' a =>
    obtain ⟨rfl, rfl⟩ := List.cons.inj hd
    exact h.within a d b rfl

theorem exists_endsHost (inBrackets : Bool) (s : List Char) :
    ∃ host back, s = host ++ back ∧ EndsHost inBrackets host back := by
  induction s generalizing inBrackets with
  | nil => exact ⟨[], [], rfl, by simp, by simp⟩
  | cons c s ih =>
    by_cases hc : c ∈ authorityEnds ∨ c = ':' ∧ inBrackets = false
    · exact ⟨[], c :: s, rfl, by simp, by simpa [openAfter] using hc⟩
    · rw [not_or, not_and, Bool.not_eq_false] at hc
      obtain ⟨host, back, rfl, h⟩ := ih (c == '[' || (inBrackets && c != ']'))
      exact ⟨c :: host, back, rfl, h.cons hc.1 hc.2⟩

theorem hostLength_append {inBrackets : Bool} {host back : List Char} (h : EndsHost inBrackets host back) :
    hostLength true inBrackets (host ++ back) = host.length := by
  induction host generalizing inBrackets with
  | nil =>
    cases back with
    | nil => rfl
    | cons c back =>
      have hc := h.ending c rfl
      rw [List.nil_append, hostLength, if_pos, List.length_nil]
      rw [Bool.or_eq_true, endsAuthority_iff, Bool.and_eq_true, beq_iff_eq, Bool.not_eq_true']
      exact hc
  | cons c host ih =>
    obtain ⟨hc, hcolon⟩ := h.within [] c host rfl
    have hgo : ¬ (endsAuthority true c || (c == ':' && !inBrackets)) = true := by
      rw [Bool.or_eq_true, endsAuthority_iff, Bool.and_eq_true, beq_iff_eq, Bool.not_eq_true']
      rintro (h' | ⟨rfl, hopen⟩)
      · exact hc h'
      · exact Bool.eq_false_iff.1 hopen (hcolon rfl)
    rw [List.cons_append, hostLength, if_neg hgo, List.length_cons, ih]
    exact ⟨fun a d b hd => h.within (c :: a) d b (by rw [hd]; rfl), h.ending⟩

namespace Host

theorem parse_nil : parse [] = .error .emptyHost := by decide +kernel

/-- A host of the web has a name. -/
theorem ne_name_nil_of_parse {s : List Char} {h : Host} (hs : parse s = .ok h) : h ≠ .name [] := by
  rintro rfl
  unfold parse at hs
  split at hs
  next r hr =>
    unfold bracketed? at hr
    split at hr
    next =>
      obtain rfl := Option.some.inj hr
      split at hs <;> cases hs
    next => cases hr
  next =>
    split at hs
    next => cases hs
    next => cases hs
    next ascii hne _ =>
      split at hs
      next => split at hs <;> cases hs
      next =>
        cases hs
        exact hne rfl

end Host

theorem readHost_eq (s : List Char) : readHost true s = Host.parse s := by
  unfold readHost
  cases s with
  | nil => exact Host.parse_nil.symm
  | cons => rfl

/-! ## The port -/

theorem isDigit_of_mem_authorityEnds {c : Char} (h : c ∈ authorityEnds) : c.isDigit = false := by
  have hall : (authorityEnds.all fun c => !c.isDigit) = true := by decide
  simpa using List.all_eq_true.1 hall c h

theorem getD_readDigits {digits : List Char} (h : ∀ c ∈ digits, '0' ≤ c ∧ c ≤ '9') :
    (Text.readDigits 10 digits).getD 0 = Nat.ofDigits 10 (digits.reverse.map fun c => c.toNat - '0'.toNat) := by
  cases digits with
  | nil => rfl
  | cons c digits =>
    have hread : Text.readDigitsFrom 10 0 (c :: digits) = .some _ := Text.readDigitsFrom_ten_eq_some_iff.2 ⟨h, rfl⟩
    rw [Text.readDigits, hread]
    · simp
    · simp

theorem exists_readPort_iff {implied : Option Nat} {s : List Char} :
    (∃ r, readPort implied s = .ok r) ↔ ∃ digits rest, s = digits ++ rest ∧ IsPort digits ∧
      ∀ c, rest.head? = .some c → c ∈ authorityEnds := by
  have hok {digits rest : List Char} (hdigits : ∀ c ∈ digits, c.isDigit = true)
      (hrest : ∀ c, rest.head? = .some c → c.isDigit = false) :
      (∃ r, readPort implied (digits ++ rest) = .ok r) ↔
        IsPort digits ∧ ∀ c, rest.head? = .some c → c ∈ authorityEnds := by
    have hall : ∀ c ∈ digits, '0' ≤ c ∧ c ≤ '9' := fun c hc => Text.isDigit_iff.1 (hdigits c hc)
    have hends : rest.head?.any (fun c => !endsAuthority true c) = false ↔
        ∀ c, rest.head? = .some c → c ∈ authorityEnds := by
      rw [Option.any_eq_false]
      refine forall₂_congr fun c hc => ?_
      rw [Bool.not_eq_false', endsAuthority_iff]
    simp only [readPort, Text.takeWhile_append_of_head hdigits hrest, List.drop_left, getD_readDigits hall]
    rw [IsPort, and_iff_right hall, ← hends, ← Nat.not_lt]
    split
    next h =>
      refine iff_of_false (by simp) ?_
      rintro ⟨hle, hany⟩
      rw [hany, Bool.or_false, decide_eq_true_eq] at h
      exact hle h
    next h =>
      rw [Bool.or_eq_true, decide_eq_true_eq, not_or, Bool.not_eq_true] at h
      exact iff_of_true ⟨_, rfl⟩ h
  constructor
  · intro h
    have hrest : ∀ c, (s.dropWhile Char.isDigit).head? = .some c → c.isDigit = false := by
      intro c hc
      have hnot := List.head?_dropWhile_not Char.isDigit s
      rwa [hc] at hnot
    have hs : s = s.takeWhile Char.isDigit ++ s.dropWhile Char.isDigit := List.takeWhile_append_dropWhile.symm
    rw [hs, hok (fun c => List.mem_takeWhile_imp) hrest] at h
    exact ⟨_, _, hs, h⟩
  · rintro ⟨digits, rest, rfl, hport, hrest⟩
    exact (hok (fun c hc => Text.isDigit_iff.2 (hport.1 c hc)) fun c hc => isDigit_of_mem_authorityEnds (hrest c hc)).2
      ⟨hport, hrest⟩

/-! ## The authority -/

theorem readAuthority_append {scheme user host back : List Char} {h : Host} (hweb : isWebScheme scheme = true)
    (huser : EndsUser user (host ++ back)) (hhost : EndsHost false host back) :
    (∃ u, readAuthority scheme (user ++ (host ++ back)) = .ok u ∧ u.host = .some h) ↔
      Host.parse host = .ok h ∧ ∀ s, back = ':' :: s → ∃ r, readPort (defaultPort? scheme) s = .ok r := by
  rcases readUserinfo_append huser with ⟨name, password, hread⟩ | ⟨hread, c, hc, hends⟩
  · have htake : (host ++ back).take host.length = host := List.take_left
    have hdrop : (host ++ back).drop host.length = back := List.drop_left
    simp only [readAuthority, hweb, hread, bind, Except.bind, hostLength_append hhost, htake, hdrop, readHost_eq]
    cases hparse : Host.parse host with
    | error f => simp
    | ok h' =>
      have hne := Host.ne_name_nil_of_parse hparse
      simp only [hne, false_and, if_false, Except.ok.injEq]
      cases back with
      | nil => simp [withRest]
      | cons c back =>
        by_cases hc : c = ':'
        · subst hc
          cases hport : readPort (defaultPort? scheme) back with
          | error f => simp [hport]
          | ok r =>
            obtain ⟨n, rest⟩ := r
            simp [hport, withRest]
        · simp [hc, withRest]
  · have hhost : host = [] := by
      cases host with
      | nil => rfl
      | cons c' host =>
        obtain rfl := Option.some.inj hc
        exact absurd hends (hhost.within [] c' host rfl).1
    subst hhost
    simp only [readAuthority, hweb, hread, bind, Except.bind, Host.parse_nil]
    simp

section

variable {user host port back rest : List Char}

theorem EndsHost.isAuthority (hhost : EndsHost false host (port ++ rest)) (huser : EndsUser user (host ++ (port ++ rest)))
    (hport : ∀ c ∈ port, c ∉ authorityEnds) (hrest : ∀ c, rest.head? = .some c → c ∈ authorityEnds)
    (hstart : port = [] ∨ ¬ IsOpen host ∧ ∃ digits, port = ':' :: digits ∧ IsPort digits) :
    IsAuthority (user ++ (host ++ (port ++ rest))) user host port rest := by
  have hboth : ∀ c ∈ host ++ port, c ∉ authorityEnds := by
    intro c hc
    rcases List.mem_append.1 hc with hc | hc
    · obtain ⟨a, b, hab⟩ := List.append_of_mem hc
      exact (hhost.within a c b hab).1
    · exact hport c hc
  have hlast := huser.last_at
  rw [← List.append_assoc, authority_append hboth hrest] at hlast
  refine ⟨rfl, fun c hc => ?_, hrest, huser.user_end, hlast, fun a b hab => ?_, hstart⟩
  · rcases List.mem_append.1 hc with hc | hc
    · exact huser.within c hc
    · exact hboth c hc
  · exact openAfter_eq_true_iff.1 ((hhost.within a ':' b hab).2 rfl)

/-- Behind the host there is a port, or none and the authority ends. -/
theorem EndsHost.exists_isAuthority (hhost : EndsHost false host back) (huser : EndsUser user (host ++ back))
    {implied : Option Nat}
    (hport : ∀ s, back = ':' :: s → ∃ r, readPort implied s = .ok r) :
    ∃ port rest, IsAuthority (user ++ (host ++ back)) user host port rest := by
  by_cases hcolon : ∃ s, back = ':' :: s
  · obtain ⟨s, rfl⟩ := hcolon
    obtain ⟨digits, rest, rfl, hdigits, hrest⟩ := exists_readPort_iff.1 (hport s rfl)
    have hopen : ¬ IsOpen host := by
      rw [← openAfter_eq_true_iff, Bool.not_eq_true]
      rcases hhost.ending ':' rfl with hends | ⟨-, hclosed⟩
      · exact absurd hends (by decide)
      · exact hclosed
    have hplain : ∀ c ∈ ':' :: digits, c ∉ authorityEnds := by
      intro c hc hends
      rcases List.mem_cons.1 hc with rfl | hc
      · revert hends
        decide
      · have hdigit := Text.isDigit_iff.2 (hdigits.1 c hc)
        rw [isDigit_of_mem_authorityEnds hends] at hdigit
        cases hdigit
    exact ⟨':' :: digits, rest, hhost.isAuthority huser hplain hrest (.inr ⟨hopen, digits, rfl, hdigits⟩)⟩
  · have hends : ∀ c, back.head? = .some c → c ∈ authorityEnds := by
      intro c hc
      obtain ⟨s, rfl⟩ := List.head?_eq_some_iff.1 hc
      rcases hhost.ending c rfl with hends | ⟨rfl, -⟩
      · exact hends
      · exact absurd ⟨s, rfl⟩ hcolon
    exact ⟨[], back, EndsHost.isAuthority hhost huser (by simp) hends (.inl rfl)⟩

theorem IsAuthority.endsUser {s : List Char} (h : IsAuthority s user host port rest) :
    EndsUser user (host ++ (port ++ rest)) := by
  have hplain : ∀ c ∈ host ++ port, c ∉ authorityEnds := fun c hc => h.within c (List.mem_append_right _ hc)
  refine ⟨fun c hc => h.within c (List.mem_append_left _ hc), h.user_end, ?_⟩
  rw [← List.append_assoc, authority_append hplain h.ending]
  exact h.last_at

theorem IsAuthority.endsHost {s : List Char} (h : IsAuthority s user host port rest) :
    EndsHost false host (port ++ rest) := by
  refine ⟨fun a c b hab => ⟨h.within c (by simp [hab]), ?_⟩, fun c hc => ?_⟩
  · rintro rfl
    exact openAfter_eq_true_iff.2 (h.host_colons a b hab)
  · rcases h.port_start with rfl | ⟨hopen, digits, rfl, -⟩
    · exact .inl (h.ending c hc)
    · obtain rfl := Option.some.inj hc
      rw [← openAfter_eq_true_iff, Bool.not_eq_true] at hopen
      exact .inr ⟨rfl, hopen⟩

theorem IsAuthority.exists_readPort {s : List Char} (h : IsAuthority s user host port rest) (implied : Option Nat)
    (t : List Char) (ht : port ++ rest = ':' :: t) : ∃ r, readPort implied t = .ok r := by
  rcases h.port_start with rfl | ⟨-, digits, rfl, hdigits⟩
  · have hcolon := h.ending ':' (by rw [List.nil_append] at ht; rw [ht]; rfl)
    exact absurd hcolon (by decide)
  · obtain ⟨-, rfl⟩ := List.cons.inj ht
    exact exists_readPort_iff.2 ⟨digits, rest, rfl, hdigits, h.ending⟩

end

/-- An authority of the web is read exactly where it names a host. -/
theorem exists_readAuthority_iff {scheme s : List Char} {h : Host} (hweb : isWebScheme scheme = true) :
    (∃ u, readAuthority scheme s = .ok u ∧ u.host = .some h) ↔ NamesHost s h := by
  constructor
  · intro hread
    obtain ⟨user, t, rfl, huser⟩ := exists_endsUser s
    obtain ⟨host, back, rfl, hhost⟩ := exists_endsHost false t
    obtain ⟨hparse, hport⟩ := (readAuthority_append hweb huser hhost).1 hread
    obtain ⟨port, rest, hauthority⟩ := hhost.exists_isAuthority huser hport
    exact ⟨user, host, port, rest, hauthority, hparse⟩
  · rintro ⟨user, host, port, rest, hauthority, hparse⟩
    rw [hauthority.parts]
    exact (readAuthority_append hweb hauthority.endsUser hauthority.endsHost).2 ⟨hparse, hauthority.exists_readPort _⟩

/-! ## Addresses of the web -/

section

variable {url : String} {scheme rest s : List Char} {h : Host}

/-- Where a host is named, no slash stands in front of it. -/
theorem NamesHost.head_isSlash (hs : NamesHost s h) (c : Char) (hc : s.head? = .some c) : isSlash true c = false := by
  obtain ⟨user, host, port, rest, hauthority, hparse⟩ := hs
  have hmem : c ∈ user ++ (host ++ port) := by
    obtain ⟨d, host, rfl⟩ : ∃ d host', host = d :: host' := by
      refine List.exists_cons_of_ne_nil ?_
      rintro rfl
      rw [Host.parse_nil] at hparse
      cases hparse
    rw [hauthority.parts] at hc
    cases user with
    | nil =>
      obtain rfl := Option.some.inj hc
      simp
    | cons d' user =>
      obtain rfl := Option.some.inj hc
      simp
  rw [← Bool.not_eq_true, isSlash_iff]
  rintro (rfl | rfl)
  · exact hauthority.within _ hmem (by decide)
  · exact hauthority.within _ hmem (by decide)

theorem parse_of_cleaned (hclean : cleaned url.toList = scheme ++ ':' :: rest)
    (hscheme : scheme = "http".toList ∨ scheme = "https".toList) :
    parse url = readAuthority scheme (rest.dropWhile (isSlash true)) := by
  have hread : readScheme (scheme ++ ':' :: rest) = .some (scheme, rest) := by
    rcases hscheme with rfl | rfl <;> rfl
  unfold parse
  rw [hclean, hread]
  rcases hscheme with rfl | rfl <;> rfl

theorem exists_parse_iff (hclean : cleaned url.toList = scheme ++ ':' :: rest)
    (hscheme : scheme = "http".toList ∨ scheme = "https".toList) :
    (∃ u, parse url = .ok u ∧ u.host = .some h) ↔ IsWebAddress url h := by
  have hweb {scheme : List Char} (hscheme : scheme = "http".toList ∨ scheme = "https".toList) :
      isWebScheme scheme = true := by
    rcases hscheme with rfl | rfl <;> decide
  constructor
  · intro hparse
    rw [parse_of_cleaned hclean hscheme, exists_readAuthority_iff (hweb hscheme)] at hparse
    refine ⟨scheme, rest.takeWhile (isSlash true), _, ?_, hscheme, fun c hc => isSlash_iff.1 (List.mem_takeWhile_imp hc),
      hparse⟩
    rw [hclean, List.takeWhile_append_dropWhile]
  · rintro ⟨scheme', slashes, s, hclean', hscheme', hslashes, hs⟩
    have hdrop : (slashes ++ s).dropWhile (isSlash true) = s := by
      rw [List.dropWhile_append_of_pos fun c hc => isSlash_iff.2 (hslashes c hc)]
      cases s with
      | nil => rfl
      | cons c s => exact List.dropWhile_cons_of_neg (by simp [hs.head_isSlash c rfl])
    rw [parse_of_cleaned hclean' hscheme', hdrop, exists_readAuthority_iff (hweb hscheme')]
    exact hs

/-- An address that begins with a web scheme keeps that when it is cleaned. -/
theorem exists_cleaned_eq {front : List Char} (hfront : front = "http://".toList ∨ front = "https://".toList)
    (s : List Char) : ∃ rest, cleaned (front ++ s) = front ++ rest := by
  have hdrop : (front ++ s).dropWhile isTrimmed = front ++ s := by
    rcases hfront with rfl | rfl <;> rfl
  have hend : ∃ t, Text.dropEndWhile isTrimmed (front ++ s) = front ++ t := by
    have hlast : front.reverse.dropWhile isTrimmed = front.reverse := by
      rcases hfront with rfl | rfl <;> rfl
    unfold Text.dropEndWhile
    rw [List.reverse_append, List.dropWhile_append, hlast]
    split
    next => exact ⟨[], by simp⟩
    next => exact ⟨_, by rw [List.reverse_append, List.reverse_reverse]⟩
  have hkept : (front.filter fun c => !isDropped c) = front := by
    rcases hfront with rfl | rfl <;> rfl
  obtain ⟨t, ht⟩ := hend
  refine ⟨t.filter fun c => !isDropped c, ?_⟩
  rw [cleaned, hdrop, ht, List.filter_append, hkept]

end

end TokenGate.Url
