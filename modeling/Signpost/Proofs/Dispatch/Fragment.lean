import Signpost.Proofs.Dispatch.Mount
import Signpost.Proofs.Text.Split

namespace Signpost

theorem Pattern.parts?_append_hash (s t : List Char) : parts? (s ++ '#' :: t) = parts? s := by
  have hpath : (Text.cut (· == '#') (s ++ '#' :: t)).1 = (Text.cut (· == '#') s).1 := by
    induction s with
    | nil => rfl
    | cons c s ih =>
        rw [List.cons_append, Text.cut, Text.cut]
        split
        · rfl
        · simp [ih]
  rw [parts?, parts?, hpath]

namespace Router

variable {r : Router} {q q' : Request} {base : String}

/-- No base path without a `#` ends in the fragment. -/
theorem append_fragment_eq_iff {b s t rest : List Char} (hb : '#' ∉ b) :
    s ++ '#' :: t = b ++ rest ↔ ∃ front, s = b ++ front ∧ rest = front ++ '#' :: t := by
  constructor
  · intro h
    obtain ⟨gap, rfl, hrest⟩ | ⟨front, hs, hrest⟩ := List.append_eq_append_iff.1 h
    · cases gap with
      | nil => exact ⟨[], by simp, by simpa using hrest.symm⟩
      | cons c gap =>
          obtain ⟨rfl, -⟩ := List.cons.inj hrest
          exact absurd (List.mem_append_right s List.mem_cons_self) hb
    · exact ⟨front, hs, hrest⟩
  · rintro ⟨front, rfl, rfl⟩
    rw [List.append_assoc]

theorem not_mem_trimSlashes {c : Char} {s : List Char} (h : c ∉ s) : c ∉ trimSlashes s := by
  intro hc
  rw [trimSlashes, List.mem_reverse] at hc
  exact h (List.mem_reverse.1 ((List.dropWhile_sublist _).subset hc))

theorem isBelow_fragment_iff (hbase : '#' ∉ base.toList) (uri f : String) :
    IsBelow base (uri ++ "#" ++ f) ↔ IsBelow base uri := by
  rw [IsBelow, IsBelow, toList_append_fragment]
  refine and_congr_right fun _ => ?_
  simp only [append_fragment_eq_iff (not_mem_trimSlashes hbase)]
  constructor
  · rintro ⟨rest, ⟨front, huri, rfl⟩, hrest⟩
    refine ⟨front, huri, fun c hc => hrest c ?_⟩
    rw [List.head?_append, Option.mem_def.1 hc]
    rfl
  · rintro ⟨front, huri, hfront⟩
    refine ⟨_, ⟨front, huri, rfl⟩, fun c hc => ?_⟩
    cases front with
    | nil =>
        cases hc
        exact .inr rfl
    | cons d front => exact hfront c hc

theorem parts?_stripBase_fragment (hbase : '#' ∉ base.toList) (uri f : String) :
    Pattern.parts? (stripBase base (uri ++ "#" ++ f)).toList = Pattern.parts? (stripBase base uri).toList := by
  by_cases h : IsBelow base uri
  case neg =>
    rw [stripBase_of_not_below h, stripBase_of_not_below (mt (isBelow_fragment_iff hbase uri f).1 h),
      toList_append_fragment, Pattern.parts?_append_hash]
  obtain ⟨hne, rest, huri, hrest⟩ := h
  have hfragment : (uri ++ "#" ++ f).toList = trimSlashes base.toList ++ (rest ++ '#' :: f.toList) := by
    rw [toList_append_fragment, huri, List.append_assoc]
  rw [stripBase_of_eq_append hne huri, stripBase_of_eq_append hne hfragment]
  cases rest with
  | nil => rfl
  | cons c rest =>
      obtain rfl | rfl := hrest c rfl
      · simpa using Pattern.parts?_append_hash ('/' :: rest) f.toList
      · rfl

theorem findsAs_fragment (hbase : '#' ∉ r.settings.basePath.toList) (method uri f : String) :
    r.FindsAs ⟨method, uri⟩ r ⟨method, uri ++ "#" ++ f⟩ :=
  findsAs_of_find? rfl (find?_congr_parts r.table rfl (parts?_stripBase_fragment hbase uri f).symm)

theorem dispatch_congr (h : r.resolve q' = r.resolve q) : r.dispatch q' = r.dispatch q := by
  rw [dispatch, dispatch, h]

theorem execute_congr (h : r.dispatch q' = r.dispatch q) (hmethod : q'.method = q.method) (m : Metrics) :
    r.execute q' m = r.execute q m := by
  rw [execute, execute, h, hmethod]

theorem execute_of_not_found (h : r.locate q = .error (.routeNotFound q)) (m : Metrics) :
    r.execute q m = (⟨[], .failure (.routeNotFound q)⟩, m.recordDispatch q.method .notFound) := by
  rw [execute, dispatch_of_error (resolve_of_error h)]
  rfl

/-- A fragment changes nothing but the text of the request in the report that nothing was found. -/
theorem execute_fragment (r : Router) (method uri f : String) (m : Metrics)
    (hbase : '#' ∉ r.settings.basePath.toList) :
    let q : Request := ⟨method, uri⟩
    let q' : Request := ⟨method, uri ++ "#" ++ f⟩
    ((∃ found, r.locate q = .ok found ∧ r.locate q' = .ok found) ∧ r.resolve q' = r.resolve q ∧
      r.execute q' m = r.execute q m) ∨
    r.locate q = .error (.routeNotFound q) ∧ r.locate q' = .error (.routeNotFound q') ∧
      (r.execute q m).1 = ⟨[], .failure (.routeNotFound q)⟩ ∧
      (r.execute q' m).1 = ⟨[], .failure (.routeNotFound q')⟩ ∧ (r.execute q' m).2 = (r.execute q m).2 := by
  intro q q'
  obtain ⟨found, hq, hq'⟩ | ⟨hq, hq'⟩ := findsAs_fragment hbase method uri f
  · have hresolve : r.resolve q' = r.resolve q := by rw [resolve_of_ok hq, resolve_of_ok hq']
    exact .inl ⟨⟨found, hq, hq'⟩, hresolve, execute_congr (dispatch_congr hresolve) rfl m⟩
  · refine .inr ⟨hq, hq', ?_⟩
    rw [execute_of_not_found hq, execute_of_not_found hq']
    exact ⟨rfl, rfl, rfl⟩

theorem execute_fragment_lobby :
    '#' ∉ (lobby "/app").settings.basePath.toList ∧
      (lobby "/app").resolve ⟨"GET", "/app/safe#top"⟩ = (lobby "/app").resolve ⟨"GET", "/app/safe"⟩ ∧
      (lobby "/app").execute ⟨"GET", "/app/safe#top"⟩ {} = (lobby "/app").execute ⟨"GET", "/app/safe"⟩ {} := by
  have hbase : '#' ∉ (lobby "/app").settings.basePath.toList := by decide
  obtain ⟨-, hresolve, hsame⟩ | ⟨hq, -⟩ := execute_fragment (lobby "/app") "GET" "/app/safe" "top" {} hbase
  · exact ⟨hbase, hresolve, hsame⟩
  · cases hq

end Router
end Signpost
