import Signpost.Proofs.Dispatch.Login

namespace Signpost.Router

variable {r r' : Router} {q q' : Request} {base uri : String}

/-- The base path as URIs begin with it, without the slashes at its end. -/
def mountPoint (base : String) : String :=
  String.ofList (trimSlashes base.toList)

theorem toList_mountPoint (base : String) : (mountPoint base).toList = trimSlashes base.toList :=
  String.toList_ofList

theorem trimSlashes_ne_nil (h : mountPoint base ≠ "") : trimSlashes base.toList ≠ [] := by
  intro hnil
  rw [mountPoint, hnil] at h
  exact h rfl

theorem toList_append_fragment (uri f : String) : (uri ++ "#" ++ f).toList = uri.toList ++ '#' :: f.toList := by
  rw [String.toList_append, String.toList_append, List.append_assoc]
  rfl

theorem stripBase_append (h : mountPoint base ≠ "") (huri : uri.toList.head? = some '/') :
    stripBase base (mountPoint base ++ uri) = uri := by
  have hrest : (mountPoint base ++ uri).toList = trimSlashes base.toList ++ uri.toList := by
    rw [String.toList_append, toList_mountPoint]
  have hne : ¬(uri.toList = [] ∨ uri.toList.head? = some '#') := by
    rintro (hnil | hhash)
    · simp [hnil] at huri
    · simp [huri] at hhash
  rw [stripBase_of_eq_append (trimSlashes_ne_nil h) hrest, if_neg hne, if_pos huri, String.ofList_toList]

theorem stripBase_mountPoint (h : mountPoint base ≠ "") : stripBase base (mountPoint base) = "/" := by
  have hrest : (mountPoint base).toList = trimSlashes base.toList ++ [] := by
    rw [List.append_nil, toList_mountPoint]
  rw [stripBase_of_eq_append (trimSlashes_ne_nil h) hrest, if_pos (.inl rfl)]

theorem stripBase_fragment (h : mountPoint base ≠ "") (f : String) :
    stripBase base (mountPoint base ++ "#" ++ f) = "/" := by
  have hrest : (mountPoint base ++ "#" ++ f).toList = trimSlashes base.toList ++ '#' :: f.toList := by
    rw [toList_append_fragment, toList_mountPoint]
  rw [stripBase_of_eq_append (trimSlashes_ne_nil h) hrest, if_pos (.inr rfl)]

theorem stripBase_once (base uri : String) :
    stripBase base uri = uri ∨ uri = mountPoint base ++ stripBase base uri ∨
      stripBase base uri = "/" ∧ (uri = mountPoint base ∨ ∃ f, uri = mountPoint base ++ "#" ++ f) := by
  by_cases h : IsBelow base uri
  case neg => exact .inl (stripBase_of_not_below h)
  obtain ⟨hbase, rest, huri, hrest⟩ := h
  have hmount : uri = mountPoint base ++ String.ofList rest := by
    apply String.toList_injective
    rw [huri, String.toList_append, toList_mountPoint, String.toList_ofList]
  rw [stripBase_of_eq_append hbase huri]
  cases rest with
  | nil =>
      rw [if_pos (.inl rfl)]
      exact .inr (.inr ⟨rfl, .inl (by simpa using hmount)⟩)
  | cons c rest =>
      obtain rfl | rfl := hrest c rfl
      · rw [if_neg (by simp), List.head?_cons, if_pos rfl]
        exact .inr (.inl hmount)
      · rw [if_pos (.inr rfl)]
        refine .inr (.inr ⟨rfl, .inr ⟨String.ofList rest, ?_⟩⟩)
        rw [hmount, String.append_assoc, ← String.toList_inj]
        simp

def FindsAs (r : Router) (q : Request) (r' : Router) (q' : Request) : Prop :=
  (∃ found, r.locate q = .ok found ∧ r'.locate q' = .ok found) ∨
    r.locate q = .error (.routeNotFound q) ∧ r'.locate q' = .error (.routeNotFound q')

/-- What is looked up in the table is the URI without the base path, and then the fallback request as it is. -/
theorem locate_eq (r : Router) (q : Request) :
    r.locate q =
      ((r.table.find? { q with uri := stripBase r.settings.basePath q.uri }).or
        (r.table.find? r.settings.fallback)).elim (.error (.routeNotFound q)) .ok := by
  rw [locate]
  cases r.table.find? { q with uri := stripBase r.settings.basePath q.uri } with
  | some found => rfl
  | none => cases r.table.find? r.settings.fallback <;> rfl

theorem findsAs_of_find? (hfallback : r.table.find? r.settings.fallback = r'.table.find? r'.settings.fallback)
    (h : r.table.find? { q with uri := stripBase r.settings.basePath q.uri } =
      r'.table.find? { q' with uri := stripBase r'.settings.basePath q'.uri }) : r.FindsAs q r' q' := by
  rw [FindsAs, locate_eq, locate_eq, h, hfallback]
  cases (r'.table.find? { q' with uri := stripBase r'.settings.basePath q'.uri }).or
      (r'.table.find? r'.settings.fallback) with
  | some found => exact .inl ⟨found, rfl, rfl⟩
  | none => exact .inr ⟨rfl, rfl⟩

/-- Below the mount point the router finds what it finds without a base path. -/
structure Mounted (r : Router) (mount : String) : Prop where
  below : ∀ method uri, uri.toList.head? = some '/' →
    r.FindsAs ⟨method, mount ++ uri⟩ (r.withBase "") ⟨method, uri⟩
  root : ∀ method, r.FindsAs ⟨method, mount⟩ (r.withBase "") ⟨method, "/"⟩
  root_fragment : ∀ method f, r.FindsAs ⟨method, mount ++ "#" ++ f⟩ (r.withBase "") ⟨method, "/"⟩
  beside : ∀ q, ¬IsBelow r.settings.basePath q.uri → r.locate q = (r.withBase "").locate q
  -- the mount point is taken away once at most, and never from the fallback request
  once : ∀ q, ∃ uri,
    (uri = q.uri ∨ q.uri = mount ++ uri ∨ uri = "/" ∧ (q.uri = mount ∨ ∃ f, q.uri = mount ++ "#" ++ f)) ∧
    r.locate q =
      ((r.table.find? { q with uri }).or (r.table.find? r.settings.fallback)).elim (.error (.routeNotFound q)) .ok

theorem findsAs_withBase (h : stripBase r.settings.basePath q.uri = uri) :
    r.FindsAs q (r.withBase "") ⟨q.method, uri⟩ := by
  subst h
  exact findsAs_of_find? rfl rfl

/-- A base path other than slashes only is transparent. -/
theorem locate_mounted (r : Router) (h : mountPoint r.settings.basePath ≠ "") :
    r.Mounted (mountPoint r.settings.basePath) := by
  refine ⟨fun method uri huri => ?_, fun method => ?_, fun method f => ?_, fun q hq => ?_, fun q => ?_⟩
  · exact findsAs_withBase (q := ⟨method, _⟩) (stripBase_append h huri)
  · exact findsAs_withBase (q := ⟨method, _⟩) (stripBase_mountPoint h)
  · exact findsAs_withBase (q := ⟨method, _⟩) (stripBase_fragment h f)
  · rw [locate_eq, locate_eq, stripBase_of_not_below hq]
    rfl
  · exact ⟨_, stripBase_once r.settings.basePath q.uri, locate_eq r q⟩

/-- Only the first `/app` is taken away, and `/application` does not lie below it. -/
theorem locate_mounted_lobby :
    mountPoint "/app//" = "/app" ∧ ¬IsBelow "/app//" "/application" ∧
      (lobby "/app//").FindsAs ⟨"GET", "/app/app/login#top"⟩ (lobby "") ⟨"GET", "/app/login#top"⟩ ∧
      (lobby "/app//").FindsAs ⟨"GET", "/app#top"⟩ (lobby "") ⟨"GET", "/"⟩ ∧
      (lobby "/app//").locate ⟨"GET", "/application"⟩ = (lobby "").locate ⟨"GET", "/application"⟩ := by
  have hmount : mountPoint "/app//" = "/app" := by decide
  have hbeside : ¬IsBelow "/app//" "/application" := by
    rintro ⟨-, rest, huri, hrest⟩
    have hrest' : rest = "lication".toList := List.append_cancel_left huri.symm
    subst hrest'
    exact absurd (hrest 'l' rfl) (by decide)
  obtain ⟨hbelow, -, hroot, hsame, -⟩ := locate_mounted (lobby "/app//") (by decide)
  exact ⟨hmount, hbeside, hbelow "GET" "/app/login#top" rfl, hroot "GET" "top", hsame ⟨"GET", "/application"⟩ hbeside⟩

end Signpost.Router
