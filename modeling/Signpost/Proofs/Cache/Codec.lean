import Signpost.Cache.Snapshot
import Signpost.Proofs.Json.Record
import Signpost.Proofs.Route.Document

namespace Signpost

open Json (IsPlain)

theorem fromUTF8?_toUTF8 (t : String) : String.fromUTF8? t.toUTF8 = some t := by
  rw [String.fromUTF8?, String.toUTF8_eq_toByteArray, dif_pos t.isValidUTF8]
  rfl

theorem Json.ofBytes?_toUTF8 (t : String) : ofBytes? t.toUTF8 = ofText? t := by
  rw [ofBytes?, fromUTF8?_toUTF8]

namespace Timestamp

def document (seconds : Json) (t : Timestamp) : Json :=
  .obj [("secs_since_epoch", seconds), ("nanos_since_epoch", .int t.nanos)]

theorem toJson?_eq_some_iff {t : Timestamp} {v : Json} :
    t.toJson? = some v ↔ ∃ n : Nat, t.seconds = n ∧ v = document (.int n) t := by
  rw [toJson?]
  split
  · next h =>
      obtain ⟨n, hn⟩ := Int.eq_ofNat_of_zero_le h
      rw [Option.some.injEq, hn]
      constructor
      · rintro rfl
        exact ⟨n, rfl, rfl⟩
      · rintro ⟨m, hm, rfl⟩
        rw [← hm]
        rfl
  · next h =>
      refine ⟨nofun, fun ⟨n, hn, _⟩ => absurd ?_ h⟩
      omega

/-- Reading the document of a time is reading its seconds, which must fit a signed word. -/
theorem ofJson?_document_eq (seconds : Json) (t : Timestamp) :
    ofJson? (document seconds t) = (Json.natBelow? (Word.count 64) seconds).bind fun n =>
      if (carry n t.nanos).seconds < (Word.count 63 : Int) then some (carry n t.nanos) else none := by
  have hrecord : Json.record? .json fieldNames (document seconds t) =
      some [("secs_since_epoch", seconds), ("nanos_since_epoch", .int t.nanos)] := by
    simp [Json.record?, Json.noneRepeated, document, fieldNames]
  have hknown : noneUnknown (document seconds t) = true := by
    simp [noneUnknown, document, fieldNames]
  have hnanos : Json.natBelow? (Word.count 32) (.int t.nanos) = some t.nanos :=
    Json.natBelow?_int (Nat.lt_trans t.nanos_lt (by decide))
  have hfirst : Json.required [("secs_since_epoch", seconds), ("nanos_since_epoch", .int t.nanos)]
      "secs_since_epoch" (Json.natBelow? (Word.count 64)) = Json.natBelow? (Word.count 64) seconds := by
    rw [Json.required, List.lookup_cons_self, Option.bind_some]
  have hsecond : Json.required [("secs_since_epoch", seconds), ("nanos_since_epoch", .int t.nanos)]
      "nanos_since_epoch" (Json.natBelow? (Word.count 32)) = some t.nanos := by
    have hother : ("nanos_since_epoch" == "secs_since_epoch") = false := by decide
    rw [Json.required, List.lookup_cons, hother, List.lookup_cons_self, Option.bind_some, hnanos]
  rw [ofJson?, hrecord, hknown]
  simp only [Bool.not_true, Bool.false_eq_true, if_false, Option.bind_eq_bind, Option.bind_some, Option.pure_def]
  rw [hfirst]
  cases Json.natBelow? (Word.count 64) seconds with
  | none => rw [Option.bind_none, Option.bind_none]
  | some n => rw [Option.bind_some, Option.bind_some, hsecond, Option.bind_some]

theorem carry_eq {t : Timestamp} {n : Nat} (h : t.seconds = n) : carry n t.nanos = t := by
  obtain ⟨s, k, hk⟩ := t
  subst h
  simp [carry, Nat.div_eq_of_lt hk, Nat.mod_eq_of_lt hk]

theorem ofJson?_document (t : Timestamp) {n : Nat} (h : t.seconds = n) :
    ofJson? (document (.int n) t) = if t.seconds < (Word.count 63 : Int) then some t else none := by
  have hmono : Word.count 63 < Word.count 64 := by decide
  rw [ofJson?_document_eq]
  by_cases hn : n < Word.count 64
  · rw [Json.natBelow?_int hn, Option.bind_some, carry_eq h]
  · rw [Json.natBelow?_int_of_le (Nat.not_lt.1 hn), Option.bind_none, if_neg (by omega)]

/-- A number beyond 64 bits is no time. -/
theorem ofJson?_document_real (t : Timestamp) (digits : String) : ofJson? (document (.real digits) t) = none := by
  rw [ofJson?_document_eq]
  rfl

end Timestamp

namespace Snapshot

def document (seconds : Json) (s : Snapshot) : Json :=
  .obj [("timestamp", s.modified.document seconds), ("routes", .arr (s.routes.map Route.toJson))]

theorem isPlain_document (s : Snapshot) {seconds : Json} (h : seconds.IsPlain) : (s.document seconds).IsPlain := by
  have hnanos : s.modified.nanos < Word.count 64 := Nat.lt_trans s.modified.nanos_lt (by decide)
  refine ⟨⟨h, ⟨?_, ?_⟩, trivial⟩, Json.itemsPlain_map Route.isPlain_toJson s.routes, trivial⟩
  · omega
  · exact_mod_cast hnanos

theorem ofJson?_document (s : Snapshot) (seconds : Json) :
    ofJson? (s.document seconds) = (Timestamp.ofJson? (s.modified.document seconds)).map (⟨·, s.routes⟩) := by
  have hrecord : Json.record? .json ["timestamp", "routes"] (s.document seconds) =
      some [("timestamp", s.modified.document seconds), ("routes", .arr (s.routes.map Route.toJson))] := rfl
  have hroutes := Json.list?_map Route.ofJson?_toJson s.routes
  rw [ofJson?, hrecord]
  cases ht : Timestamp.ofJson? (s.modified.document seconds) <;>
    simp [Json.required, List.lookup_cons, ht, hroutes]

/-- Times before the epoch are all that keeps a snapshot from having a document. -/
theorem encode?_eq_some_iff {s : Snapshot} {content : ByteArray} :
    s.encode? = some content ↔
      ∃ n : Nat, s.modified.seconds = n ∧ content = (s.document (.int n)).toText.toUTF8 := by
  simp only [encode?, toJson?, Option.map_map, Option.map_eq_some_iff, Timestamp.toJson?_eq_some_iff]
  constructor
  · rintro ⟨v, ⟨n, hn, rfl⟩, rfl⟩
    exact ⟨n, hn, rfl⟩
  · rintro ⟨n, hn, rfl⟩
    exact ⟨_, ⟨n, hn, rfl⟩, rfl⟩

theorem toText_document_real (s : Snapshot) (n : Nat) :
    (s.document (.real (String.ofList (Nat.toDigits 10 n)))).toText = (s.document (.int n)).toText := by
  simp [document, Timestamp.document, Json.toText, Json.intChars]

/-- The document of a snapshot is either read back as this snapshot or, where the time is out of range,
not at all. -/
theorem decode?_of_encode? {s : Snapshot} {content : ByteArray} (h : s.encode? = some content) :
    decode? content = if s.modified.seconds < (Word.count 63 : Int) then some s else none := by
  obtain ⟨n, hn, rfl⟩ := encode?_eq_some_iff.1 h
  rw [decode?, Json.ofBytes?_toUTF8]
  by_cases hsmall : n < Word.count 64
  · have hp : IsPlain (.int n) := ⟨by omega, by exact_mod_cast hsmall⟩
    have hread := Json.ofText?_toText (s.isPlain_document hp)
    rw [hread, Option.bind_eq_bind, Option.bind_some, ofJson?_document, s.modified.ofJson?_document hn]
    split <;> rfl
  · have hp : IsPlain (.real (String.ofList (Nat.toDigits 10 n))) := Json.isPlain_toDigits (Nat.not_lt.1 hsmall)
    have hread := Json.ofText?_toText (s.isPlain_document hp)
    have hmono : Word.count 63 < Word.count 64 := by decide
    rw [toText_document_real] at hread
    rw [hread, Option.bind_eq_bind, Option.bind_some, ofJson?_document, Timestamp.ofJson?_document_real,
      if_neg (by omega)]
    rfl

/-- The document of a snapshot whose seconds a signed word holds is read back as exactly this snapshot, is
the document of no other, and is fresh for exactly its own time. -/
theorem decode?_encode? (s : Snapshot) (hepoch : 0 ≤ s.modified.seconds)
    (hword : s.modified.seconds < (Word.count 63 : Int)) :
    ∃ content, s.encode? = some content ∧ decode? content = some s ∧
      (∀ other : Snapshot, other.encode? = some content → other = s) ∧
      ∀ modified, (∃ found, decode? content = some found ∧ found.isFresh modified = true) ↔ modified = s.modified := by
  obtain ⟨n, hn⟩ := Int.eq_ofNat_of_zero_le hepoch
  have hwrite := encode?_eq_some_iff.2 ⟨n, hn, rfl⟩
  have hread := decode?_of_encode? hwrite
  rw [if_pos hword] at hread
  refine ⟨_, hwrite, hread, ?_, ?_⟩
  · intro other hother
    have h := decode?_of_encode? hother
    rw [hread] at h
    split at h
    · exact (Option.some.inj h).symm
    · cases h
  · intro modified
    constructor
    · rintro ⟨found, hfound, hfresh⟩
      rw [hread] at hfound
      cases hfound
      exact (beq_iff_eq.1 hfresh).symm
    · rintro rfl
      exact ⟨s, hread, beq_iff_eq.2 rfl⟩

/-- The last time in range, and texts full of what has to be escaped. -/
theorem decode?_encode?_escapes :
    let s : Snapshot := ⟨⟨9223372036854775807, 999999999, by decide⟩,
      [⟨.any, ⟨[], some "\"#\\"⟩, ⟨"a\x00\n\x7f", "😀"⟩⟩, ⟨.post, ⟨[.literal "\"\x7d]", .digits], none⟩, ⟨"", ","⟩⟩]⟩
    0 ≤ s.modified.seconds ∧ s.modified.seconds < (Word.count 63 : Int) ∧
      ∃ content, s.encode? = some content ∧ decode? content = some s ∧
        (∀ other : Snapshot, other.encode? = some content → other = s) ∧
        ∀ modified, (∃ found, decode? content = some found ∧ found.isFresh modified = true) ↔ modified = s.modified :=
  ⟨by decide, by decide, decode?_encode? _ (by decide) (by decide)⟩

end Snapshot

end Signpost
