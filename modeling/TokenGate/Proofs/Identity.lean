/-
The JSON form of an identity.

What an identity is written as is read as its form (`parse_encode`), and the form stands for it (`ofJson?_toJson`). So
the text gives the identity back, with the address if it is known and without one if not, and writing once more what was
read changes nothing (`decode_encode`).
-/
import TokenGate.Identity
import TokenGate.Proofs.Json.Text

namespace TokenGate

namespace Json

/-- The value is an object with a member of this name. -/
def HasField (v : Json) (name : String) : Prop :=
  ∃ members, v = .object members ∧ ∃ m ∈ members, unescape m.1 = .some name.toList

/-- The fields of an object are looked up by the names that its members were written with. -/
theorem fields?_object (members : List (String × Json)) (names : List String) :
    (object (members.map fun m => member m.1 m.2)).fields? names = names.mapM fun name => uniqueMember name members := by
  have hnames : (members.map fun m => member m.1 m.2).mapM
      (fun m => (unescape m.1).map fun k => (String.ofList k, m.2)) = .some members := by
    induction members with
    | nil => rfl
    | cons m ms ih =>
      rw [List.map_cons, List.mapM_cons, ih]
      simp [member, unescape_escape]
  exact congrArg (·.bind fun members => names.mapM fun name => uniqueMember name members) hnames

@[simp] theorem text?_ofText (s : String) : (ofText s).text? = .some s := by
  rw [ofText, text?, unescape_escape, Option.map_some, String.ofList_toList]

@[simp] theorem optionalText?_ofText (s : String) : (ofText s).optionalText? = .some (.some s) := by
  rw [optionalText?, text?_ofText]
  · rfl
  · nofun

theorem texts?_ofText (ss : List String) : (Json.array (ss.map ofText)).texts? = .some ss := by
  induction ss with
  | nil => rfl
  | cons s ss ih =>
    simp only [texts?] at ih ⊢
    simp [ih]

end Json

namespace Identity

theorem written_toJson (i : Identity) : i.toJson.Written := by
  have hkey (key : String) (v : Json) : ∃ k : String, (Json.member key v).1 = Json.escape k.toList := ⟨key, rfl⟩
  have hteams : (Json.array (i.teams.map .ofText)).Written := .array (List.forall_mem_map.2 fun s _ => .text s)
  unfold toJson
  cases i.email with
  | none =>
    refine .object ?_ ?_
    · simp [hkey]
    · simp [Json.member, hteams, Json.Written.text, Json.Written.int]
  | some e =>
    refine .object ?_ ?_
    · simp [hkey]
    · simp [Json.member, hteams, Json.Written.text, Json.Written.int]

/-- The form of an identity stands for it. -/
theorem ofJson?_toJson (i : Identity) : ofJson? i.toJson = .some i := by
  obtain ⟨login, id, email, org, teams⟩ := i
  cases email with
  | none =>
    have hfields : (toJson ⟨login, id, .none, org, teams⟩).fields? ["login", "id", "email", "org", "teams"] =
        .some [.some (.ofText login), .some (.ofInt id.toInt), .none, .some (.ofText org),
          .some (.array (teams.map .ofText))] :=
      Json.fields?_object [("login", .ofText login), ("id", .ofInt id.toInt), ("org", .ofText org),
        ("teams", .array (teams.map .ofText))] _
    rw [ofJson?, hfields]
    simp [Json.int64?_ofInt, Json.texts?_ofText, Json.optionalText?]
  | some e =>
    have hfields : (toJson ⟨login, id, .some e, org, teams⟩).fields? ["login", "id", "email", "org", "teams"] =
        .some [.some (.ofText login), .some (.ofInt id.toInt), .some (.ofText e), .some (.ofText org),
          .some (.array (teams.map .ofText))] :=
      Json.fields?_object [("login", .ofText login), ("id", .ofInt id.toInt), ("email", .ofText e),
        ("org", .ofText org), ("teams", .array (teams.map .ofText))] _
    rw [ofJson?, hfields]
    simp [Json.int64?_ofInt, Json.texts?_ofText]

theorem parse_encode (i : Identity) : Json.parse i.encode.toList = .some i.toJson := by
  rw [encode, Json.text, String.toList_ofList]
  exact Json.parse_render i.written_toJson

theorem hasField_email_iff (i : Identity) : i.toJson.HasField "email" ↔ i.email.isSome = true := by
  have hfield (members : List (List Char × Json)) :
      (Json.object members).HasField "email" ↔ ∃ m ∈ members, Json.unescape m.1 = .some "email".toList := by
    simp [Json.HasField]
  rw [toJson, hfield]
  cases i.email <;> simp [Json.member, Json.unescape_escape]

/-- **The JSON form of an identity.** The text of every identity stands for it, and holds an address exactly if that
is known. Whatever text stands for an identity, the identity is written as a text that stands for it too, and writing
what is read from that gives the same text. -/
theorem decode_encode (i : Identity) :
    decode i.encode = .some i ∧
      (∃ v, Json.parse i.encode.toList = .some v ∧ (v.HasField "email" ↔ i.email.isSome = true)) ∧
      ∀ s j, decode s = .some j → decode j.encode = decode s ∧ (decode j.encode).map encode = .some j.encode := by
  have hdecode (j : Identity) : decode j.encode = .some j := by
    rw [decode, Json.decode, parse_encode, Option.bind_some, ofJson?_toJson]
  refine ⟨hdecode i, ⟨i.toJson, i.parse_encode, i.hasField_email_iff⟩, fun s j h => ⟨(hdecode j).trans h.symm, ?_⟩⟩
  rw [hdecode, Option.map_some]

/-- A text with its fields in another order, escapes that need not be, a surrogate pair, a field that does not count and
no address. -/
theorem decode_encode_reordered :
    let s := "\x7b\"teams\":[\"\\u0061\\ud83d\\ude00\", \"\"],\"email\":null,\"since\":[1e3],\"org\":\"a\\/b\",\n" ++
      "\"id\":-9223372036854775808,\"login\":\"\\\"\\u001f\\\\\"\x7d"
    let i : Identity := ⟨"\"\x1f\\", -9223372036854775808, .none, "a/b", ["a😀", ""]⟩
    let t := "\x7b\"login\":\"\\\"\\u001f\\\\\",\"id\":-9223372036854775808,\"org\":\"a/b\",\"teams\":[\"a😀\",\"\"]\x7d"
    decode s = .some i ∧ i.encode = t ∧ decode t = .some i ∧ (decode t).map encode = .some t ∧
      ∃ v, Json.parse t.toList = .some v ∧ ¬ v.HasField "email" := by
  intro s i t
  have hs : decode s = .some i := by decide +kernel
  have ht : i.encode = t := by decide +kernel
  obtain ⟨hback, ⟨v, hv, hemail⟩, hall⟩ := decode_encode i
  obtain ⟨-, hagain⟩ := hall s i hs
  rw [ht] at hback hv hagain
  exact ⟨hs, ht, hback, hagain, v, hv, fun h => absurd (hemail.1 h) (by decide)⟩

end Identity

end TokenGate
