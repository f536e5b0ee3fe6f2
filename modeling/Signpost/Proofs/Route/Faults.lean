import Signpost.Proofs.Route.Source

namespace Signpost

open Text

namespace Grammar

/-- The fields of a text are its longest runs of characters other than spaces and tabs. -/
inductive HasFields : List (List Char) → List Char → Prop
  | none {gap : List Char} (hgap : ∀ c ∈ gap, c = ' ' ∨ c = '\t') : HasFields [] gap
  | some {gap field rest : List Char} {fields : List (List Char)} (hgap : ∀ c ∈ gap, c = ' ' ∨ c = '\t')
      (hne : field ≠ []) (hfield : ∀ c ∈ field, c ≠ ' ' ∧ c ≠ '\t') (hrest : ∀ c ∈ rest.head?, c = ' ' ∨ c = '\t')
      (h : HasFields fields rest) : HasFields (field :: fields) (gap ++ field ++ rest)

/-- The rules in the order in which they are checked. -/
inductive Rule where
  | fieldCount
  | method
  | uriAnchor
  | slash
  | segments
  | targetAnchor
  | oneAnchor
  | target
  deriving DecidableEq, Repr

def Rule.all : List Rule :=
  [.fieldCount, .method, .uriAnchor, .slash, .segments, .targetAnchor, .oneAnchor, .target]

/-- A text breaks a rule, and the fault has the evidence. -/
inductive Breaks : Rule → List Char → Fault → Prop
  | fieldCount {s fields} (hs : HasFields fields s) (h : fields.length ≠ 3) :
      Breaks .fieldCount s (.fieldCount fields.length)
  | method {s m u t} (hs : HasFields [m, u, t] s) (h : ∀ verb, ¬IsMethod verb m) :
      Breaks .method s (.verb (String.ofList m))
  | uriAnchor {s m path a t} (hs : HasFields [m, path ++ '#' :: a, t] s) (hpath : '#' ∉ path)
      (h : ∀ anchor, ¬IsAnchor anchor ('#' :: a)) : Breaks .uriAnchor s (.anchor (String.ofList a))
  | slash {s m u t} (hs : HasFields [m, u, t] s) (h : u.head? ≠ some '/') : Breaks .slash s (.uri (String.ofList u))
  -- the segments before the bad one are good
  | segments {s m good bad more tail t}
      (hs : HasFields [m, '/' :: ['/'].intercalate (good ++ bad :: more) ++ tail, t] s)
      (hparts : ∀ part ∈ good ++ bad :: more, IsPart part) (htail : ∀ c ∈ tail.head?, c = '#')
      (hgood : ∀ part ∈ good, ∃ segment, IsSegment segment part) (h : ∀ segment, ¬IsSegment segment bad) :
      Breaks .segments s (.segment (String.ofList bad))
  | targetAnchor {s m u name a} (hs : HasFields [m, u, name ++ '#' :: a] s) (hname : '#' ∉ name)
      (h : ∀ anchor, ¬IsAnchor anchor ('#' :: a)) : Breaks .targetAnchor s (.anchor (String.ofList a))
  | oneAnchor {s m u t} (hs : HasFields [m, u, t] s) (hu : '#' ∈ u) (ht : '#' ∈ t) : Breaks .oneAnchor s .twoAnchors
  | target {s m u name tail} (hs : HasFields [m, u, name ++ tail] s) (hname : '#' ∉ name)
      (htail : ∀ c ∈ tail.head?, c = '#') (h : ∀ target, ¬IsTarget target name) :
      Breaks .target s (.target (String.ofList name))

def FirstBroken (rules : List Rule) (s : List Char) (f : Fault) : Prop :=
  ∃ earlier rule later, rules = earlier ++ rule :: later ∧ Breaks rule s f ∧
    ∀ kept ∈ earlier, ∀ f', ¬Breaks kept s f'

variable {s m u t path name rest : List Char} {fields parts : List (List Char)} {f : Fault}
  {onPath onTarget : Option String}

theorem isGap_eq_true_iff {c : Char} : Route.isGap c = true ↔ c = ' ' ∨ c = '\t' := by
  simp [Route.isGap]

theorem isGap_eq_false_iff {c : Char} : Route.isGap c = false ↔ c ≠ ' ' ∧ c ≠ '\t' := by
  simp [Route.isGap]

theorem hasFields_iff : HasFields fields s ↔ runs Route.isGap s = fields := by
  constructor
  · intro h
    induction h with
    | none hgap =>
        have hruns := runs_append_of_marked (fun c hc => isGap_eq_true_iff.2 (hgap c hc)) []
        rwa [List.append_nil] at hruns
    | some hgap hne hfield hrest _ ih =>
        rw [runs_gap_append (fun c hc => isGap_eq_true_iff.2 (hgap c hc)) hne
          (fun c hc => isGap_eq_false_iff.2 (hfield c hc)) fun c hc => isGap_eq_true_iff.2 (hrest c hc), ih]
  · intro h
    induction fields generalizing s with
    | nil => exact .none fun c hc => isGap_eq_true_iff.1 (forall_marked_of_runs_eq_nil h c hc)
    | cons field fields ih =>
        obtain ⟨gap, rest, rfl, hgap, hne, hfield, hrest, hruns⟩ := exists_of_runs_eq_cons h
        exact .some (fun c hc => isGap_eq_true_iff.1 (hgap c hc)) hne
          (fun c hc => isGap_eq_false_iff.1 (hfield c hc)) (fun c hc => isGap_eq_true_iff.1 (hrest c hc)) (ih hruns)

theorem HasFields.unique {fields' : List (List Char)} (h : HasFields fields s) (h' : HasFields fields' s) :
    fields = fields' := by
  rw [← hasFields_iff.1 h, ← hasFields_iff.1 h']

theorem anchorOfChars_eq_error_iff : Pattern.anchorOfChars s = .error f ↔
    (∀ anchor, ¬IsAnchor anchor ('#' :: s)) ∧ f = .anchor (String.ofList s) := by
  have honly : ∀ f', Pattern.anchorOfChars s = .error f' → f' = .anchor (String.ofList s) := by
    intro f' h
    rw [Pattern.anchorOfChars] at h
    split at h <;> cases h
    rfl
  rw [eq_error_iff_of_only honly]
  refine and_congr_left' ⟨fun h anchor hanchor => ?_, fun h a ha => h (some a) (anchorOfChars_eq_ok_iff.1 ha)⟩
  cases hanchor with
  | present hne hs => exact h _ (anchorOfChars_eq_ok_iff.2 (.present hne hs))

theorem splitAnchor_eq_error_iff : Pattern.splitAnchor s = .error f ↔
    ∃ front back, s = front ++ '#' :: back ∧ '#' ∉ front ∧ (∀ anchor, ¬IsAnchor anchor ('#' :: back)) ∧
      f = .anchor (String.ofList back) := by
  constructor
  · intro h
    by_cases hs : '#' ∈ s
    · obtain ⟨front, back, rfl, hfront⟩ := List.eq_append_cons_of_mem hs
      rw [splitAnchor_append_hash hfront] at h
      cases ha : Pattern.anchorOfChars back with
      | ok a => rw [ha] at h; cases h
      | error f' =>
          rw [ha] at h
          cases h
          exact ⟨front, back, rfl, hfront, anchorOfChars_eq_error_iff.1 ha⟩
    · rw [splitAnchor_of_no_hash hs] at h
      cases h
  · rintro ⟨front, back, rfl, hfront, h⟩
    rw [splitAnchor_append_hash hfront, anchorOfChars_eq_error_iff.2 h]
    rfl

theorem segment_ofChars_eq_error_iff : Segment.ofChars s = .error f ↔
    (∀ segment, ¬IsSegment segment s) ∧ f = .segment (String.ofList s) := by
  have honly : ∀ f', Segment.ofChars s = .error f' → f' = .segment (String.ofList s) := by
    intro f' h
    rw [Segment.ofChars] at h
    split_ifs at h
    cases h
    rfl
  rw [eq_error_iff_of_only honly]
  refine and_congr_left' (forall_congr' fun segment => not_congr ?_)
  exact ⟨isSegment_of_ofChars, ofChars_of_isSegment⟩

theorem mapM_eq_error_iff : parts.mapM Segment.ofChars = .error f ↔
    ∃ good bad more, parts = good ++ bad :: more ∧ (∀ part ∈ good, ∃ segment, IsSegment segment part) ∧
      (∀ segment, ¬IsSegment segment bad) ∧ f = .segment (String.ofList bad) := by
  induction parts with
  | nil =>
      constructor
      · rintro ⟨⟩
      · rintro ⟨good, bad, more, hparts, -⟩
        simp at hparts
  | cons part parts ih =>
      rw [List.mapM_cons]
      cases hpart : Segment.ofChars part with
      | error f' =>
          obtain ⟨hbad, rfl⟩ := segment_ofChars_eq_error_iff.1 hpart
          constructor
          · rintro ⟨⟩
            exact ⟨[], part, parts, rfl, by simp, hbad, rfl⟩
          · rintro ⟨good, bad, more, hparts, hgood, -, rfl⟩
            cases good with
            | nil => cases hparts; rfl
            | cons first good =>
                cases hparts
                obtain ⟨segment, hsegment⟩ := hgood part List.mem_cons_self
                exact absurd hsegment (hbad segment)
      | ok segment =>
          have hsegment := isSegment_of_ofChars hpart
          constructor
          · intro h
            have hrest : parts.mapM Segment.ofChars = .error f := by
              cases hparts : parts.mapM Segment.ofChars with
              | error f' => rw [hparts] at h; cases h; rfl
              | ok segments => rw [hparts] at h; cases h
            obtain ⟨good, bad, more, rfl, hgood, hbad⟩ := ih.1 hrest
            exact ⟨part :: good, bad, more, rfl, List.forall_mem_cons.2 ⟨⟨segment, hsegment⟩, hgood⟩, hbad⟩
          · rintro ⟨good, bad, more, hparts, hgood, hbad⟩
            cases good with
            | nil =>
                cases hparts
                exact absurd hsegment (hbad.1 segment)
            | cons first good =>
                cases hparts
                rw [ih.2 ⟨good, bad, more, rfl, (List.forall_mem_cons.1 hgood).2, hbad⟩]
                rfl

theorem target_ofChars_eq_error_iff : Target.ofChars s = .error f ↔
    (∀ target, ¬IsTarget target s) ∧ f = .target (String.ofList s) := by
  have honly : ∀ f', Target.ofChars s = .error f' → f' = .target (String.ofList s) := by
    intro f' h
    rw [Target.ofChars] at h
    split at h
    · split at h <;> cases h
      rfl
    · cases h
      rfl
  rw [eq_error_iff_of_only honly]
  exact and_congr_left' (forall_congr' fun target => not_congr target_ofChars_eq_ok_iff)

def checkMethod (m : List Char) : Except Fault Verb :=
  match Verb.ofText? (String.ofList m) with
  | some verb => .ok verb
  | none => .error (.verb (String.ofList m))

def checkSlash (uri : List Char) : List Char → Except Fault (List Char)
  | '/' :: rest => .ok rest
  | _ => .error (.uri (String.ofList uri))

theorem checkSlash_eq_ok_iff : checkSlash u path = .ok rest ↔ path = '/' :: rest := by
  unfold checkSlash
  split
  · simp
  · next h => simpa using fun hpath => h rest hpath

theorem checkSlash_of_ne (h : ∀ rest, path ≠ '/' :: rest) : checkSlash u path = .error (.uri (String.ofList u)) :=
  checkSlash.eq_2 u path h

theorem pattern_ofChars_eq_checks (u : List Char) :
    Pattern.ofChars u = (do
      let path ← Pattern.splitAnchor u
      let rest ← checkSlash u path.1
      let segments ← (split (· == '/') rest).mapM Segment.ofChars
      return ⟨segments, path.2⟩) := by
  rw [Pattern.ofChars]
  cases Pattern.splitAnchor u with
  | error f => rfl
  | ok path =>
      obtain ⟨path, onPath⟩ := path
      by_cases h : ∃ rest, path = '/' :: rest
      · obtain ⟨rest, rfl⟩ := h
        rfl
      · rw [not_exists] at h
        simp only [bind, Except.bind, checkSlash_of_ne h]
        rfl

/-- A definition of three fields is read by one check after the other. -/
theorem ofFields_eq_checks (m u t : List Char) :
    Route.ofFields [m, u, t] = (do
      let verb ← checkMethod m
      let path ← Pattern.splitAnchor u
      let rest ← checkSlash u path.1
      let segments ← (split (· == '/') rest).mapM Segment.ofChars
      let name ← Pattern.splitAnchor t
      let anchor ← Route.mergeAnchor path.2 name.2
      let target ← Target.ofChars name.1
      return ⟨verb, ⟨segments, anchor⟩, target⟩) := by
  rw [Route.ofFields, checkMethod, pattern_ofChars_eq_checks]
  cases Verb.ofText? (String.ofList m) with
  | none => rfl
  | some verb =>
      cases Pattern.splitAnchor u with
      | error f => rfl
      | ok path =>
          cases hslash : checkSlash u path.1 with
          | error f => simp only [bind, Except.bind, hslash]
          | ok rest =>
              simp only [bind, Except.bind, hslash]
              cases (split (· == '/') rest).mapM Segment.ofChars <;> rfl

theorem breaks_fieldCount_iff : Breaks .fieldCount s f ↔
    (runs Route.isGap s).length ≠ 3 ∧ f = .fieldCount (runs Route.isGap s).length := by
  constructor
  · rintro ⟨hs, h⟩
    rw [hasFields_iff.1 hs]
    exact ⟨h, rfl⟩
  · rintro ⟨h, rfl⟩
    exact .fieldCount (hasFields_iff.2 rfl) h

/-- The front of a text up to its first hash. -/
theorem takeWhile_front {front tail : List Char} (hfront : '#' ∉ front) (htail : ∀ c ∈ tail.head?, c = '#') :
    (front ++ tail).takeWhile (· != '#') = front := by
  have hall : ∀ c ∈ front, (c != '#') = true := fun c hc => bne_iff_ne.2 fun heq => hfront (heq ▸ hc)
  rw [List.takeWhile_append_of_pos hall]
  cases tail with
  | nil => simp
  | cons c tail =>
      obtain rfl := htail c rfl
      simp

theorem hash_mem_iff (h : Pattern.splitAnchor s = .ok (path, onPath)) : '#' ∈ s ↔ onPath ≠ none := by
  obtain ⟨hhash, tail, htail, rfl⟩ := splitAnchor_eq_ok_iff.1 h
  cases htail with
  | absent => simpa using hhash
  | present => simp

theorem mergeAnchor_eq_error_iff : Route.mergeAnchor onPath onTarget = .error f ↔
    onPath ≠ none ∧ onTarget ≠ none ∧ f = .twoAnchors := by
  cases onPath <;> cases onTarget <;> simp [Route.mergeAnchor, eq_comm]

variable (hs : HasFields [m, u, t] s)
include hs

theorem breaks_method_iff : Breaks .method s f ↔ checkMethod m = .error f := by
  have hnone : Verb.ofText? (String.ofList m) = none ↔ ∀ verb, ¬IsMethod verb m := by
    simp only [← ofText?_eq_some_iff_isMethod]
    exact Option.eq_none_iff_forall_ne_some
  constructor
  · intro h
    cases h with
    | method hs' h =>
        cases hs.unique hs'
        rw [checkMethod, hnone.2 h]
  · intro h
    rw [checkMethod] at h
    split at h
    · cases h
    · next hverb =>
        cases h
        exact .method hs (hnone.1 hverb)

theorem breaks_uriAnchor_iff : Breaks .uriAnchor s f ↔ Pattern.splitAnchor u = .error f := by
  rw [splitAnchor_eq_error_iff]
  constructor
  · intro h
    cases h with
    | uriAnchor hs' hpath h =>
        cases hs.unique hs'
        exact ⟨_, _, rfl, hpath, h, rfl⟩
  · rintro ⟨path, a, rfl, hpath, h, rfl⟩
    exact .uriAnchor hs hpath h

theorem breaks_slash_iff (hpath : Pattern.splitAnchor u = .ok (path, onPath)) :
    Breaks .slash s f ↔ checkSlash u path = .error f := by
  obtain ⟨-, tail, htail, rfl⟩ := splitAnchor_eq_ok_iff.1 hpath
  have hhead : (path ++ tail).head? ≠ some '/' ↔ ∀ rest, path ≠ '/' :: rest := by
    cases path with
    | nil =>
        have hslash : tail.head? ≠ some '/' := fun h => absurd (htail.head '/' h) (by decide)
        simpa using hslash
    | cons c path => simp
  constructor
  · intro h
    cases h with
    | slash hs' h =>
        cases hs.unique hs'
        exact checkSlash_of_ne (hhead.1 h)
  · intro h
    have hne : ∀ rest, path ≠ '/' :: rest := by
      intro rest hrest
      rw [checkSlash_eq_ok_iff.2 hrest] at h
      cases h
    rw [checkSlash_of_ne hne] at h
    cases h
    exact .slash hs (hhead.2 hne)

theorem breaks_segments_iff (hpath : Pattern.splitAnchor u = .ok ('/' :: rest, onPath)) :
    Breaks .segments s f ↔ (split (· == '/') rest).mapM Segment.ofChars = .error f := by
  obtain ⟨hhash, tail, htail, rfl⟩ := splitAnchor_eq_ok_iff.1 hpath
  have hfront := takeWhile_front hhash htail.head
  rw [mapM_eq_error_iff]
  constructor
  · intro h
    cases h with
    | @segments _ _ good bad more tail' _ hs' hparts htail' hgood h =>
        have hu : '/' :: rest ++ tail = '/' :: ['/'].intercalate (good ++ bad :: more) ++ tail' := by
          simpa using (List.cons.inj (List.cons.inj (hs.unique hs')).2).1
        rw [hu, takeWhile_front (hash_not_mem_of_parts hparts) htail'] at hfront
        have hsplit : split (· == '/') rest = good ++ bad :: more :=
          split_eq_iff.2 ⟨by simp, fun part hpart => (hparts part hpart).1, (List.cons.inj hfront).2.symm⟩
        exact ⟨good, bad, more, hsplit, hgood, h, rfl⟩
  · rintro ⟨good, bad, more, hparts, hgood, h, rfl⟩
    obtain ⟨-, hslash, rfl⟩ := split_eq_iff.1 hparts
    refine .segments hs (fun part hpart => ⟨hslash part hpart, fun hc => hhash ?_⟩) htail.head hgood h
    exact List.mem_cons_of_mem _ (subset_intercalate hpart hc)

theorem breaks_targetAnchor_iff : Breaks .targetAnchor s f ↔ Pattern.splitAnchor t = .error f := by
  rw [splitAnchor_eq_error_iff]
  constructor
  · intro h
    cases h with
    | targetAnchor hs' hname h =>
        cases hs.unique hs'
        exact ⟨_, _, rfl, hname, h, rfl⟩
  · rintro ⟨name, a, rfl, hname, h, rfl⟩
    exact .targetAnchor hs hname h

theorem breaks_oneAnchor_iff (hpath : Pattern.splitAnchor u = .ok (path, onPath))
    (hname : Pattern.splitAnchor t = .ok (name, onTarget)) :
    Breaks .oneAnchor s f ↔ Route.mergeAnchor onPath onTarget = .error f := by
  rw [mergeAnchor_eq_error_iff, ← hash_mem_iff hpath, ← hash_mem_iff hname]
  constructor
  · intro h
    cases h with
    | oneAnchor hs' hu ht =>
        cases hs.unique hs'
        exact ⟨hu, ht, rfl⟩
  · rintro ⟨hu, ht, rfl⟩
    exact .oneAnchor hs hu ht

theorem breaks_target_iff (hname : Pattern.splitAnchor t = .ok (name, onTarget)) :
    Breaks .target s f ↔ Target.ofChars name = .error f := by
  obtain ⟨hhash, tail, htail, rfl⟩ := splitAnchor_eq_ok_iff.1 hname
  rw [target_ofChars_eq_error_iff]
  constructor
  · intro h
    cases h with
    | @target _ _ _ name' tail' hs' hname' htail' h =>
        have ht : name ++ tail = name' ++ tail' := by
          simpa using (List.cons.inj (List.cons.inj (hs.unique hs')).2).2
        obtain rfl : name = name' := by
          rw [← takeWhile_front hhash htail.head, ht, takeWhile_front hname' htail']
        exact ⟨h, rfl⟩
  · rintro ⟨h, rfl⟩
    exact .target hs hhash htail.head h

omit hs

theorem not_firstBroken_nil : ¬FirstBroken [] s f := by
  rintro ⟨earlier, rule, later, h, -⟩
  simp at h

theorem firstBroken_cons {rule : Rule} {rules : List Rule} : FirstBroken (rule :: rules) s f ↔
    Breaks rule s f ∨ (∀ f', ¬Breaks rule s f') ∧ FirstBroken rules s f := by
  constructor
  · rintro ⟨earlier, broken, later, hrules, hbroken, hearlier⟩
    cases earlier with
    | nil =>
        cases hrules
        exact .inl hbroken
    | cons first earlier =>
        cases hrules
        rw [List.forall_mem_cons] at hearlier
        exact .inr ⟨hearlier.1, earlier, broken, later, rfl, hbroken, hearlier.2⟩
  · rintro (h | ⟨hkept, earlier, broken, later, rfl, hbroken, hearlier⟩)
    · exact ⟨[], rule, rules, rfl, h, by simp⟩
    · exact ⟨rule :: earlier, broken, later, rfl, hbroken, List.forall_mem_cons.2 ⟨hkept, hearlier⟩⟩

/-- One check in front of others: its own fault wins. -/
theorem firstBroken_bind {α β : Type} {rule : Rule} {rules : List Rule} {x : Except Fault α} {g : α → Except Fault β}
    (hx : ∀ f, Breaks rule s f ↔ x = .error f) (hg : ∀ a, x = .ok a → (FirstBroken rules s f ↔ g a = .error f)) :
    FirstBroken (rule :: rules) s f ↔ (x >>= g) = .error f := by
  rw [firstBroken_cons, bind_eq_error_iff]
  simp only [hx]
  refine or_congr_right ?_
  constructor
  · rintro ⟨hok, h⟩
    cases x with
    | error f' => exact absurd rfl (hok f')
    | ok a => exact ⟨a, rfl, (hg a rfl).1 h⟩
  · rintro ⟨a, rfl, h⟩
    exact ⟨by simp, (hg a rfl).2 h⟩

theorem ofFields_of_length_ne (h : fields.length ≠ 3) : Route.ofFields fields = .error (.fieldCount fields.length) := by
  unfold Route.ofFields
  split
  · exact absurd rfl h
  · rfl

/-- The readers stop at the first rule that is broken. -/
theorem firstBroken_all_iff : FirstBroken Rule.all s f ↔ Route.ofFields (runs Route.isGap s) = .error f := by
  rw [Rule.all, firstBroken_cons]
  simp only [breaks_fieldCount_iff]
  by_cases hlength : (runs Route.isGap s).length = 3
  · obtain ⟨m, u, t, hruns⟩ := List.length_eq_three.1 hlength
    have hs := hasFields_iff.2 hruns
    simp only [hlength, ne_eq, not_true_eq_false, false_and, not_false_eq_true, implies_true, true_and, false_or]
    rw [hruns, ofFields_eq_checks]
    refine firstBroken_bind (fun f => breaks_method_iff hs) fun verb hverb => ?_
    refine firstBroken_bind (fun f => breaks_uriAnchor_iff hs) fun path hpath => ?_
    refine firstBroken_bind (fun f => breaks_slash_iff hs hpath) fun rest hrest => ?_
    have hslash : Pattern.splitAnchor u = .ok ('/' :: rest, path.2) := by
      rw [hpath, ← checkSlash_eq_ok_iff.1 hrest]
    refine firstBroken_bind (fun f => breaks_segments_iff hs hslash) fun segments _ => ?_
    refine firstBroken_bind (fun f => breaks_targetAnchor_iff hs) fun name hname => ?_
    refine firstBroken_bind (fun f => breaks_oneAnchor_iff hs hpath hname) fun anchor _ => ?_
    refine firstBroken_bind (fun f => breaks_target_iff hs hname) fun target _ => ?_
    exact ⟨fun h => absurd h not_firstBroken_nil, fun h => by cases h⟩
  · rw [ofFields_of_length_ne hlength]
    constructor
    · rintro (⟨-, rfl⟩ | ⟨h, -⟩)
      · rfl
      · exact absurd ⟨hlength, rfl⟩ (h _)
    · rintro ⟨⟩
      exact .inl ⟨hlength, rfl⟩

end Grammar

namespace Route

/-- A line that defines no route is reported as a whole, without the blanks at its ends, with the first rule that it
breaks. Of a file it is the first such line that is reported, skipped lines apart. -/
theorem ofLine_eq_error_iff :
    (∀ line e, ofLine line = .error e ↔ ∃ text, IsCore text line.toList ∧
      Grammar.FirstBroken Grammar.Rule.all text e.fault ∧ e.text = String.ofList text ∧ e.line = none) ∧
    ∀ content e, ofSource content = .error e ↔ ∃ above line below e',
      content.toList = ['\n'].intercalate (above ++ line :: below) ∧ (∀ other ∈ above ++ line :: below, '\n' ∉ other) ∧
      (∀ other ∈ above, Skipped other ∨ ∃ r, ofLine (String.ofList other) = .ok r) ∧
      ¬Skipped line ∧ ofLine (String.ofList line) = .error e' ∧ e = e'.atLine (above.length + 1) := by
  constructor
  · intro line e
    rw [ofLine, ofChars, mapError_eq_error_iff]
    constructor
    · rintro ⟨f, hf, rfl⟩
      exact ⟨trim line.toList, trim_eq_iff.1 rfl, Grammar.firstBroken_all_iff.2 hf, rfl, rfl⟩
    · rintro ⟨text, hcore, hbroken, htext, hline⟩
      obtain ⟨f, text', line'⟩ := e
      dsimp only at hbroken htext hline
      rw [trim_eq_iff.2 hcore, htext, hline]
      exact ⟨f, Grammar.firstBroken_all_iff.1 hbroken, rfl⟩
  · intro content e
    simp only [ofLine, String.toList_ofList]
    rw [ofSource, ofLines_eq_error_iff]
    constructor
    · rintro ⟨above, line, below, e', hlines, habove, hskip, he', rfl⟩
      obtain ⟨-, hnewline, hcontent⟩ := split_eq_iff.1 hlines
      exact ⟨above, line, below, e', hcontent, hnewline, habove, hskip, he', by rw [Nat.add_comm]⟩
    · rintro ⟨above, line, below, e', hcontent, hnewline, habove, hskip, he', rfl⟩
      refine ⟨above, line, below, e', split_eq_iff.2 ⟨by simp, hnewline, hcontent⟩, habove, hskip, he', ?_⟩
      rw [Nat.add_comm]

/-- The URI has no slash, a bad segment and a bad anchor, and so has the target: the anchor of the URI comes first. -/
example : ofLine " GET a!/b#x#y A->b->c#\r" = .error ⟨.anchor "x#y", "GET a!/b#x#y A->b->c#", none⟩ := by
  decide

end Route
end Signpost
