import Signpost.Proofs.Json.RoundTrip
import Signpost.Route.Document

namespace Signpost

open Json (IsPlain ItemsPlain)

theorem Json.list?_map {α : Type} {write : α → Json} {read? : Json → Option α}
    (h : ∀ a, read? (write a) = some a) (items : List α) :
    Json.list? read? (.arr (items.map write)) = some items := by
  rw [Json.list?]
  induction items with
  | nil => rfl
  | cons a items ih => simp [h a, ih]

theorem Json.itemsPlain_map {α : Type} {write : α → Json} (h : ∀ a, (write a).IsPlain) (items : List α) :
    ItemsPlain (items.map write) := by
  induction items with
  | nil => trivial
  | cons a items ih => exact ⟨h a, ih⟩

theorem Verb.isPlain_toJson (v : Verb) : v.toJson.IsPlain := by
  cases v <;> trivial

theorem Verb.ofJson?_toJson (v : Verb) : Verb.ofJson? v.toJson = some v := by
  cases v <;> rfl

theorem Segment.isPlain_toJson (s : Segment) : s.toJson.IsPlain := by
  cases s with
  | literal t => exact ⟨trivial, trivial⟩
  | text | digits => trivial

theorem Segment.ofJson?_toJson (s : Segment) : Segment.ofJson? s.toJson = some s := by
  cases s <;> rfl

theorem Pattern.isPlain_toJson (p : Pattern) : p.toJson.IsPlain := by
  refine ⟨Json.itemsPlain_map Segment.isPlain_toJson p.segments, ?_, trivial⟩
  cases p.anchor <;> trivial

theorem Pattern.ofJson?_toJson (p : Pattern) : Pattern.ofJson? p.toJson = some p := by
  obtain ⟨segments, anchor⟩ := p
  have hs := Json.list?_map Segment.ofJson?_toJson segments
  have ha : Json.optional? Json.string? (anchor.elim .null .str) = some anchor := by
    cases anchor <;> rfl
  have hf : Json.record? .json ["segments", "anchor"] (Pattern.toJson ⟨segments, anchor⟩) =
    some [("segments", .arr (segments.map Segment.toJson)), ("anchor", anchor.elim .null .str)] := rfl
  rw [Pattern.ofJson?, hf]
  simp [Json.required, Json.fieldOr, List.lookup_cons, hs, ha]

theorem Target.isPlain_toJson (t : Target) : t.toJson.IsPlain :=
  ⟨trivial, trivial, trivial⟩

theorem Target.ofJson?_toJson (t : Target) : Target.ofJson? t.toJson = some t := rfl

theorem Route.isPlain_toJson (r : Route) : r.toJson.IsPlain :=
  ⟨r.verb.isPlain_toJson, r.pattern.isPlain_toJson, r.target.isPlain_toJson, trivial⟩

theorem Route.ofJson?_toJson (r : Route) : Route.ofJson? r.toJson = some r := by
  have hf : Json.record? .json ["method", "pattern", "target"] r.toJson =
    some [("method", r.verb.toJson), ("pattern", r.pattern.toJson), ("target", r.target.toJson)] := rfl
  rw [Route.ofJson?, hf]
  simp [Json.required, List.lookup_cons, r.verb.ofJson?_toJson, r.pattern.ofJson?_toJson, r.target.ofJson?_toJson]

end Signpost
