import Signpost.Proofs.Route.Table
import Signpost.Route.Lookup

namespace Signpost

variable {t : Table} {q : Request} {m : Match} {r : Route} {f : Failure}

theorem Route.captures_eq_none_iff :
    r.captures q = none ↔ (r.verb.accepts q.method = true → r.pattern.captures q.uri = none) := by
  rw [Route.captures]
  split
  · simp [*]
  · simp [*]

namespace Table

theorem getElem?_eq_some_iff_append {rs : List Route} {i : Nat} :
    rs[i]? = some r ↔ ∃ before after, rs = before ++ r :: after ∧ i = before.length := by
  constructor
  · intro h
    obtain ⟨hi, rfl⟩ := List.getElem?_eq_some_iff.1 h
    refine ⟨rs.take i, rs.drop (i + 1), ?_, by rw [List.length_take]; omega⟩
    rw [List.getElem_cons_drop, List.take_append_drop]
  · rintro ⟨before, after, rfl, rfl⟩
    simp

/-- The match is of the first route that answers to the method and the URI of the request. -/
structure First (t : Table) (q : Request) (m : Match) : Prop where
  place : t.routes[m.index]? = some m.route
  verb : m.route.verb.accepts q.method = true
  captures : m.route.pattern.captures q.uri = some m.captures
  least : ∀ i < m.index, ∀ r, t.routes[i]? = some r → r.verb.accepts q.method = true → r.pattern.captures q.uri = none

theorem find?_eq_some_iff : t.find? q = some m ↔ t.First q m := by
  rw [find?, findFrom_eq_some_iff]
  constructor
  · rintro ⟨before, after, hroutes, hindex, hcaptures, hbefore⟩
    rw [Nat.zero_add] at hindex
    obtain ⟨hverb, hpattern⟩ := Route.captures_eq_some_iff.1 hcaptures
    refine ⟨getElem?_eq_some_iff_append.2 ⟨before, after, hroutes, hindex⟩, hverb, hpattern, fun i hi r hr => ?_⟩
    rw [hindex] at hi
    rw [hroutes, List.getElem?_append_left hi] at hr
    exact Route.captures_eq_none_iff.1 (hbefore r (List.mem_of_getElem? hr))
  · intro h
    obtain ⟨before, after, hroutes, hindex⟩ := getElem?_eq_some_iff_append.1 h.place
    refine ⟨before, after, hroutes, by omega, Route.captures_eq_some_iff.2 ⟨h.verb, h.captures⟩, fun r hr => ?_⟩
    obtain ⟨i, hi, rfl⟩ := List.mem_iff_getElem.1 hr
    refine Route.captures_eq_none_iff.2 (h.least i (by omega) _ ?_)
    rw [hroutes, List.getElem?_append_left hi, List.getElem?_eq_getElem hi]

theorem find_eq_ok_iff : t.find q = .ok m ↔ t.First q m := by
  rw [← find?_eq_some_iff, find]
  cases t.find? q <;> simp

theorem find_eq_error_iff : t.find q = .error f ↔
    f = .routeNotFound q ∧
      ∀ r ∈ t.routes, r.verb.accepts q.method = true → r.pattern.captures q.uri = none := by
  have hnone : t.find? q = none ↔ ∀ r ∈ t.routes, r.captures q = none := findFrom_eq_none_iff
  simp only [Route.captures_eq_none_iff] at hnone
  rw [← hnone, find]
  cases t.find? q <;> simp [eq_comm]

theorem find_append_of_ok {rs : List Route} (h : find ⟨rs⟩ q = .ok m) (rs' : List Route) :
    find ⟨rs ++ rs'⟩ q = .ok m := by
  simp only [find, find?, findFrom_append] at h ⊢
  cases hrs : findFrom q 0 rs with
  | some found => rwa [hrs] at h
  | none => rw [hrs] at h; cases h

theorem find_append_of_error {rs : List Route} (h : find ⟨rs⟩ q = .error f) (rs' : List Route) :
    find ⟨rs ++ rs'⟩ q = (find ⟨rs'⟩ q).map (·.later rs.length) := by
  simp only [find, find?, findFrom_append, findFrom_later rs.length] at h ⊢
  cases hrs : findFrom q 0 rs with
  | some found => rw [hrs] at h; cases h
  | none => cases findFrom q 0 rs' <;> rfl

/-- A route that is there already has no say a second time. -/
theorem find_add_of_mem (h : r ∈ t.routes) (q : Request) : (t.add r).find q = t.find q := by
  cases ht : t.find q with
  | ok m => exact find_append_of_ok ht [r]
  | error f =>
      obtain ⟨rfl, hnone⟩ := find_eq_error_iff.1 ht
      refine find_eq_error_iff.2 ⟨rfl, fun r' hr' => ?_⟩
      rcases List.mem_append.1 hr' with hr' | hr'
      · exact hnone r' hr'
      · obtain rfl := List.mem_singleton.1 hr'
        exact hnone r' h

def Edit.route? : Edit → Option Route
  | .add r => some r
  | .define method uri target => (Route.ofParts method uri target).toOption
  | .set _ => none

theorem define_of_error {method uri target : String} {e : DefinitionError}
    (h : Route.ofParts method uri target = .error e) : t.define method uri target = (.error e, t) := by
  rw [define, h]

theorem routes_edit {e : Edit} (h : ∀ rs, e ≠ .set rs) : (t.edit e).routes = t.routes ++ e.route?.toList := by
  cases e with
  | add r => rfl
  | define method uri target =>
      rw [edit, define, Edit.route?]
      cases Route.ofParts method uri target with
      | ok r => rfl
      | error e => exact (List.append_nil t.routes).symm
  | set rs => exact absurd rfl (h rs)

theorem routes_after {edits : List Edit} (h : ∀ rs, .set rs ∉ edits) :
    (t.after edits).routes = t.routes ++ edits.filterMap Edit.route? := by
  induction edits generalizing t with
  | nil => exact (List.append_nil t.routes).symm
  | cons e edits ih =>
      have he : ∀ rs, e ≠ .set rs := fun rs heq => h rs (heq ▸ List.mem_cons_self)
      have hrest := @ih (t.edit e) fun rs hrs => h rs (List.mem_cons_of_mem e hrs)
      rw [after, List.foldl_cons, ← after, hrest, routes_edit he, List.append_assoc, List.filterMap_cons]
      cases e.route? <;> rfl

theorem after_append (edits later : List Edit) : t.after (edits ++ later) = (t.after edits).after later :=
  List.foldl_append

theorem after_cons (e : Edit) (edits : List Edit) : t.after (e :: edits) = (t.edit e).after edits :=
  rfl

/-- Whatever the history of a table, a request gets the first of its routes that answers to it, or the failure that
names it. Lookups in joined tables, in tables with a route twice and after failed definitions follow from the parts. -/
theorem find_first :
    (∀ (t : Table) (edits : List Edit) (q : Request),
      (∀ m, (t.after edits).find q = .ok m ↔ (t.after edits).First q m) ∧
      ∀ f, (t.after edits).find q = .error f ↔ f = .routeNotFound q ∧
        ∀ r ∈ (t.after edits).routes, r.verb.accepts q.method = true → r.pattern.captures q.uri = none) ∧
    (∀ (t : Table) (edits : List Edit),
      ((∀ rs, .set rs ∉ edits) → (t.after edits).routes = t.routes ++ edits.filterMap Edit.route?) ∧
      ∀ rs later, t.after (edits ++ .set rs :: later) = after ⟨rs⟩ later) ∧
    (∀ (rs rs' : List Route) (q : Request),
      (∀ m, find ⟨rs⟩ q = .ok m → find ⟨rs ++ rs'⟩ q = .ok m) ∧
      ∀ f, find ⟨rs⟩ q = .error f → find ⟨rs ++ rs'⟩ q = (find ⟨rs'⟩ q).map (·.later rs.length)) ∧
    (∀ (t : Table) (r : Route) (q : Request), r ∈ t.routes → (t.add r).find q = t.find q) ∧
    ∀ (method uri target : String) (e : DefinitionError), Route.ofParts method uri target = .error e →
      ∀ t : Table, t.define method uri target = (.error e, t) ∧
        ∀ edits later q,
          (t.after (edits ++ .define method uri target :: later)).find q = (t.after (edits ++ later)).find q := by
  refine ⟨fun t edits q => ⟨fun m => find_eq_ok_iff, fun f => find_eq_error_iff⟩,
    fun t edits => ⟨routes_after, fun rs later => after_append edits (.set rs :: later)⟩,
    fun rs rs' q => ⟨fun m h => find_append_of_ok h rs', fun f h => find_append_of_error h rs'⟩,
    fun t r q h => find_add_of_mem h q, fun method uri target e h t => ⟨define_of_error h, fun edits later q => ?_⟩⟩
  rw [after_append, after_append, after_cons, edit, define_of_error h]

/-- The first route fails on the method, the second definition on its own method, and the last one answers. -/
theorem find_first_sieved :
    let post : Route := ⟨.post, ⟨[.text], none⟩, ⟨"A", "b"⟩⟩
    let number : Route := ⟨.any, ⟨[.digits], none⟩, ⟨"A", "c"⟩⟩
    let q : Request := ⟨"GET", "/7#top"⟩
    let edits : List Edit := [.add post, .define "PUT" "/7" "A->b", .define "*" "/[numeric]" "A->c"]
    (after {} edits).routes = [post, number] ∧ (after {} edits).First q ⟨1, number, ["7"]⟩ ∧
      find ⟨[post]⟩ q = .error (.routeNotFound q) ∧ ((after {} edits).add number).find q = .ok ⟨1, number, ["7"]⟩ ∧
      define {} "PUT" "/7" "A->b" = (.error ⟨.verb "PUT", "PUT /7 A->b", none⟩, {}) := by
  intro post number q edits
  obtain ⟨hfirst, hroutes, happend, hadd, hdefine⟩ := find_first
  have hedits : (after {} edits).routes = [post, number] := by
    rw [(hroutes {} edits).1 (by simp [edits])]
    decide
  have hmiss : find ⟨[post]⟩ q = .error (.routeNotFound q) := rfl
  have hfind : (after {} edits).find q = .ok ⟨1, number, ["7"]⟩ := by
    have hboth := (happend [post] [number] q).2 _ hmiss
    have hmatch : find? ⟨[number]⟩ q = some ⟨0, number, ["7"]⟩ := by decide
    have hlast : find ⟨[number]⟩ q = .ok ⟨0, number, ["7"]⟩ := by rw [find, hmatch]
    have htable : after {} edits = ⟨[post] ++ [number]⟩ := congrArg Table.mk hedits
    rw [htable, hboth, hlast]
    rfl
  refine ⟨hedits, ((hfirst {} edits q).1 _).1 hfind, hmiss, ?_, (hdefine _ _ _ _ rfl {}).1⟩
  rw [hadd _ number q (by rw [hedits]; simp), hfind]

end Table
end Signpost
