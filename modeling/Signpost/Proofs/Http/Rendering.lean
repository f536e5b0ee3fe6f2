import Signpost.Http.Response
import Signpost.Proofs.Json.Canonical

namespace Signpost.Http.Response

def value? (r : Response) : Option Json :=
  match r.contentType with
  | none => if r.body = "" then some .null else none
  | some type =>
    if type = plainText then some (.str r.body)
    else if type = "application/json" then Json.value? r.body
    else none

def IsDocument (v : Json) : Prop :=
  v ≠ .null ∧ ∀ t, v ≠ .str t

variable {v w : Json}

theorem ofValue_document (h : IsDocument v) : ofValue v = ⟨200, some "application/json", v.toText⟩ := by
  cases v with
  | null => exact absurd rfl h.1
  | str t => exact absurd rfl (h.2 t)
  | bool _ | int _ | real _ | illFormed | arr _ | obj _ => rfl

theorem null_or_str_or_document (v : Json) : v = .null ∨ (∃ t, v = .str t) ∨ IsDocument v := by
  by_cases hnull : v = .null
  · exact .inl hnull
  · by_cases hstr : ∃ t, v = .str t
    · exact .inr (.inl hstr)
    · exact .inr (.inr ⟨hnull, fun t ht => hstr ⟨t, ht⟩⟩)

theorem contentType_ofValue_eq_none : (ofValue v).contentType = none ↔ v = .null := by
  cases v <;> simp [ofValue]

theorem contentType_ofValue_eq_plainText : (ofValue v).contentType = some plainText ↔ ∃ t, v = .str t := by
  cases v <;> simp [ofValue, plainText]

theorem contentType_ofValue_eq_json : (ofValue v).contentType = some "application/json" ↔ IsDocument v := by
  cases v <;> simp [ofValue, plainText, IsDocument]

theorem value?_document (h : IsDocument v) : (ofValue v).value? = Json.value? v.toText := by
  rw [ofValue_document h]
  rfl

theorem value?_ofValue (hv : v.IsExact) (hdepth : v.depth ≤ Json.maxDepth) : (ofValue v).value? = some v := by
  obtain rfl | ⟨t, rfl⟩ | h := null_or_str_or_document v
  · rfl
  · rfl
  · rw [value?_document h, Json.value?_toText_of_isExact hv hdepth]

theorem eq_of_ofValue (hv : v.IsPlain) (hw : w.IsPlain) (h : ofValue v = ofValue w) : v = w := by
  have htype : (ofValue v).contentType = (ofValue w).contentType := congrArg contentType h
  obtain rfl | ⟨t, rfl⟩ | hdocument := null_or_str_or_document v
  · exact (contentType_ofValue_eq_none.1 htype.symm).symm
  · obtain ⟨u, rfl⟩ := contentType_ofValue_eq_plainText.1 htype.symm
    exact congrArg Json.str (congrArg body h)
  · have hdocument' : IsDocument w :=
      contentType_ofValue_eq_json.1 (htype.symm.trans (contentType_ofValue_eq_json.2 hdocument))
    rw [ofValue_document hdocument, ofValue_document hdocument'] at h
    exact Json.eq_of_toText hv hw (congrArg body h)

structure Shows (v : Json) : Prop where
  value : (ofValue v).value? = some v
  null : (ofValue v).contentType = none ∧ (ofValue v).body = "" ↔ v = .null
  text : ∀ t, (ofValue v).contentType = some plainText ∧ (ofValue v).body = t ↔ v = .str t
  document : (ofValue v).contentType = some "application/json" ∧ Json.value? (ofValue v).body = some v ↔ IsDocument v

theorem shows_of_isExact (hv : v.IsExact) (hdepth : v.depth ≤ Json.maxDepth) : Shows v where
  value := value?_ofValue hv hdepth
  null := by
    constructor
    · rintro ⟨htype, -⟩
      exact contentType_ofValue_eq_none.1 htype
    · rintro rfl
      exact ⟨rfl, rfl⟩
  text t := by
    constructor
    · rintro ⟨htype, rfl⟩
      obtain ⟨u, rfl⟩ := contentType_ofValue_eq_plainText.1 htype
      rfl
    · rintro rfl
      exact ⟨rfl, rfl⟩
  document := by
    constructor
    · rintro ⟨htype, -⟩
      exact contentType_ofValue_eq_json.1 htype
    · intro h
      have hbody : (ofValue v).body = v.toText := congrArg body (ofValue_document h)
      rw [hbody, Json.value?_toText_of_isExact hv hdepth]
      exact ⟨contentType_ofValue_eq_json.2 h, rfl⟩

/-- A value without floats that the reader's limit lets through can be told from its response, and two values without
floats never have the same response, however deep they nest. -/
theorem ofValue_faithful :
    (∀ v : Json, v.IsExact → v.depth ≤ Json.maxDepth → Shows v) ∧
      ∀ v w : Json, v.IsExact → w.IsExact → ofValue v = ofValue w → v = w := by
  refine ⟨fun _ => shows_of_isExact, fun v w hv hw => ?_⟩
  exact eq_of_ofValue (Json.isPlain_of_isExact v hv) (Json.isPlain_of_isExact w hw)

-- null, the text of null and the empty text, each by itself and nested
theorem ofValue_faithful_nested :
    Shows (.obj [("", .arr [.null, .str "null", .str ""]), ("\"", .int (-5))]) ∧
      ofValue (.str "null") ≠ ofValue .null ∧ ofValue (.str "") ≠ ofValue .null := by
  obtain ⟨hshows, hinjective⟩ := ofValue_faithful
  have hitems : Json.ItemsExact [.null, .str "null", .str ""] := ⟨trivial, trivial, trivial, trivial⟩
  have hint : Json.IsExact (.int (-5)) := ⟨by decide, by decide⟩
  refine ⟨hshows _ ⟨by decide, hitems, hint, trivial⟩ (by decide), fun h => ?_, fun h => ?_⟩
  · cases hinjective (.str "null") .null trivial trivial h
  · cases hinjective (.str "") .null trivial trivial h

end Signpost.Http.Response
