import Mathlib.Data.List.Induction
import Mathlib.Data.List.Nodup
import Mathlib.Data.List.Perm.Subperm
import Mathlib.Data.List.ProdSigma
import Signpost.Proofs.Dispatch.Authorization
import Signpost.Proofs.Lookup

namespace Signpost

namespace Counter

variable {κ : Type} [DecidableEq κ] {c : Counter κ} {ks : List κ}

def keys (c : Counter κ) : List κ :=
  c.series.map Prod.fst

def restrict (p : κ → Bool) (c : Counter κ) : Counter κ :=
  ⟨c.series.filter fun entry => p entry.1⟩

def tally (ks : List κ) : Counter κ :=
  ks.foldl increment {}

theorem lookup_bump (k j : κ) (series : List (κ × Nat)) :
    (bump k series).lookup j = if j = k then some ((series.lookup k).getD 0 + 1) else series.lookup j := by
  induction series with
  | nil => exact lookup_cons k j 1 []
  | cons entry series ih =>
      obtain ⟨i, n⟩ := entry
      by_cases hi : i = k
      · subst hi
        by_cases h : j = i <;> simp [bump, lookup_cons, h]
      -- the entry of another key stays in front, and `bump` goes on behind it
      · by_cases h : j = i
        · subst h
          simp [bump, hi]
        · simp [bump, lookup_cons, hi, Ne.symm hi, h, ih]

theorem count_increment (c : Counter κ) (k j : κ) :
    (c.increment k).count j = c.count j + if j = k then 1 else 0 := by
  rw [count, increment, lookup_bump]
  by_cases h : j = k
  · subst h
    simp [count]
  · simp [count, h]

theorem keys_bump (k : κ) (series : List (κ × Nat)) :
    (bump k series).map Prod.fst =
      if k ∈ series.map Prod.fst then series.map Prod.fst else series.map Prod.fst ++ [k] := by
  induction series with
  | nil => rfl
  | cons entry series ih =>
      obtain ⟨i, n⟩ := entry
      by_cases hi : i = k
      · simp [bump, hi]
      · by_cases h : k ∈ series.map Prod.fst <;> simp_all [bump, Ne.symm hi]

theorem nodup_keys_increment (h : c.keys.Nodup) (k : κ) : (c.increment k).keys.Nodup := by
  rw [keys, increment, keys_bump]
  split
  · exact h
  · rename_i hk
    exact List.nodup_append'.2 ⟨h, List.nodup_singleton k, by simpa using hk⟩

theorem total_restrict_increment (p : κ → Bool) (c : Counter κ) (k : κ) :
    ((c.increment k).restrict p).total = (c.restrict p).total + if p k then 1 else 0 := by
  obtain ⟨series⟩ := c
  simp only [increment, restrict, total]
  induction series with
  | nil => cases h : p k <;> simp [bump, h]
  | cons entry series ih =>
      obtain ⟨i, n⟩ := entry
      by_cases hi : i = k
      · subst hi
        cases h : p i
        · simp [bump, h]
        · simp [bump, h]; omega
      · cases h : p i
        · simp [bump, hi, h, ih]
        · simp [bump, hi, h, ih]; omega

omit [DecidableEq κ] in
theorem restrict_true (c : Counter κ) : c.restrict (fun _ => true) = c := by
  rw [restrict, List.filter_true]

theorem tally_append (ks : List κ) (k : κ) : tally (ks ++ [k]) = (tally ks).increment k := by
  rw [tally, List.foldl_append]
  rfl

theorem nodup_keys_tally (ks : List κ) : (tally ks).keys.Nodup := by
  induction ks using List.reverseRecOn with
  | nil => exact List.nodup_nil
  | append_singleton ks k ih =>
      rw [tally_append]
      exact nodup_keys_increment ih k

theorem count_tally (ks : List κ) (k : κ) : (tally ks).count k = ks.count k := by
  induction ks using List.reverseRecOn with
  | nil => rfl
  | append_singleton ks j ih =>
      rw [tally_append, count_increment, ih, List.count_append, List.count_singleton]
      by_cases h : k = j
      · simp [h]
      · simp [h, Ne.symm h]

theorem total_restrict_tally (p : κ → Bool) (ks : List κ) : ((tally ks).restrict p).total = ks.countP p := by
  induction ks using List.reverseRecOn with
  | nil => rfl
  | append_singleton ks k ih => rw [tally_append, total_restrict_increment, ih, List.countP_append, List.countP_singleton]

theorem total_tally (ks : List κ) : (tally ks).total = ks.length := by
  rw [← restrict_true (tally ks), total_restrict_tally, List.countP_true]

theorem total_tally_filterMap {α : Type} (f : α → Option κ) (xs : List α) :
    (tally (xs.filterMap f)).total = xs.countP fun x => (f x).isSome := by
  rw [total_tally, List.length_filterMap_eq_countP]

theorem count_tally_filterMap {α : Type} (f : α → Option κ) (xs : List α) (k : κ) :
    (tally (xs.filterMap f)).count k = xs.countP fun x => decide (f x = some k) := by
  rw [count_tally, List.count_filterMap]
  exact List.countP_congr fun x _ => by rw [beq_iff_eq, decide_eq_true_iff]

theorem length_series_tally_le {all : List κ} (hall : ∀ k, k ∈ all) (ks : List κ) :
    (tally ks).series.length ≤ all.length := by
  have hsub := (nodup_keys_tally ks).subperm fun k _ => hall k
  have hlength : (tally ks).keys.length = (tally ks).series.length := List.length_map ..
  exact hlength ▸ hsub.length_le

end Counter

inductive MethodLabel.Labels : String → MethodLabel → Prop
  | get : Labels "GET" .get
  | post : Labels "POST" .post
  | other {method} (hget : method ≠ "GET") (hpost : method ≠ "POST") : Labels method .other

theorem MethodLabel.ofMethod_eq_iff {method : String} {label : MethodLabel} :
    ofMethod method = label ↔ Labels method label := by
  constructor
  · rintro rfl
    rw [ofMethod.eq_def]
    split
    · exact .get
    · exact .post
    · exact .other ‹_› ‹_›
  · intro h
    cases h with
    | get | post => rfl
    | other hget hpost =>
        rw [ofMethod.eq_def]
        split
        · exact absurd rfl hget
        · exact absurd rfl hpost
        · rfl

/-- The outcome that a reply shows. One that broke off shows none. -/
inductive Outcome.Shows : Reply → Outcome → Prop
  | ok {v} : Shows (.value v) .ok
  | notFound {q} : Shows (.failure (.routeNotFound q)) .notFound
  | rejected {controller reason} : Shows (.failure (.rejected controller reason)) .rejected
  | error {f} (hroute : ∀ q, f ≠ .routeNotFound q) (hguard : ∀ controller reason, f ≠ .rejected controller reason) :
      Shows (.failure f) .error

theorem Outcome.ofReply?_eq_some_iff {reply : Reply} {outcome : Outcome} :
    ofReply? reply = some outcome ↔ Shows reply outcome := by
  constructor
  · intro h
    cases reply with
    | crash => cases h
    | value v =>
        cases h
        exact .ok
    | failure f =>
        cases h
        rw [ofFailure.eq_def]
        split
        · exact .notFound
        · exact .rejected
        · exact .error ‹_› ‹_›
  · intro h
    cases h with
    | ok | notFound | rejected => rfl
    | error hroute hguard =>
        rw [ofReply?, ofFailure.eq_def]
        split
        · exact absurd rfl (hroute _)
        · exact absurd rfl (hguard _ _)
        · rfl

def MethodLabel.all : List MethodLabel :=
  [get, post, other]

def Outcome.all : List Outcome :=
  [ok, notFound, rejected, error]

theorem mem_labels (k : MethodLabel × Outcome) : k ∈ MethodLabel.all.product Outcome.all := by
  obtain ⟨label, outcome⟩ := k
  cases label <;> cases outcome <;> decide

namespace Metrics

/-- What can be done with routers and loaders. -/
inductive Operation where
  | execute (r : Router) (q : Request)
  | resolve (r : Router) (q : Request)
  | locate (r : Router) (q : Request)
  | swap (r : Router) (routes : List Route)
  | load (l : Loader) (path : String) (w : World)

namespace Operation

def apply (m : Metrics) : Operation → Metrics
  | execute r q => (r.execute q m).2
  | load l path w => (l.load path w).record m
  | resolve _ _ | locate _ _ | swap _ _ => m

def returned : Operation → Bool
  | execute r q =>
    match (r.dispatch q).reply with
    | .value _ | .failure _ => true
    | .crash => false
  | _ => false

def loaded : Operation → Bool
  | load l path w => (l.load path w).result.isOk
  | _ => false

inductive Dispatches : Operation → MethodLabel → Outcome → Prop
  | intro {r : Router} {q label outcome} (hlabel : label.Labels q.method) (hshown : outcome.Shows (r.dispatch q).reply) :
      Dispatches (execute r q) label outcome

inductive Loads : Operation → Origin → Prop
  | intro {l path w loaded} (hloaded : (l.load path w).result = .ok loaded) : Loads (load l path w) loaded.origin

/-- What an operation does to the metrics. -/
inductive Effect (m : Metrics) : Operation → Metrics → Prop
  | executed {r : Router} {q label outcome} (hlabel : label.Labels q.method)
      (hshown : outcome.Shows (r.execute q m).1.reply) :
      Effect m (execute r q) ⟨m.dispatches.increment (label, outcome), m.durations.increment outcome, m.loads⟩
  | brokenOff {r q} (hcrash : (r.execute q m).1.reply = .crash) : Effect m (execute r q) m
  | loaded {l path w loaded} (hloaded : (l.load path w).result = .ok loaded) :
      Effect m (load l path w) ⟨m.dispatches, m.durations, m.loads.increment loaded.origin⟩
  | failed {l path w f} (hfailed : (l.load path w).result = .error f) : Effect m (load l path w) m
  | resolved {r q} : Effect m (resolve r q) m
  | located {r q} : Effect m (locate r q) m
  | swapped {r routes} : Effect m (swap r routes) m

variable {op : Operation} {m : Metrics}

theorem effect_apply (op : Operation) (m : Metrics) : Effect m op (op.apply m) := by
  cases op with
  | execute r q =>
      have hrun := r.run_execute q m
      rw [apply, Router.execute]
      cases hreply : (r.dispatch q).reply with
      | crash => exact .brokenOff (hrun ▸ hreply)
      | value v => exact .executed (MethodLabel.ofMethod_eq_iff.1 rfl) (hrun ▸ hreply ▸ .ok)
      | failure f =>
          have hshown : (Outcome.ofFailure f).Shows (.failure f) := Outcome.ofReply?_eq_some_iff.1 rfl
          exact .executed (MethodLabel.ofMethod_eq_iff.1 rfl) (hrun ▸ hreply ▸ hshown)
  | load l path w =>
      cases hresult : (l.load path w).result with
      | error f =>
          rw [apply, Load.record, hresult]
          exact .failed hresult
      | ok loaded =>
          rw [apply, Load.record, hresult]
          exact .loaded hresult
  | resolve => exact .resolved
  | locate => exact .located
  | swap => exact .swapped

def dispatched? : Operation → Option (MethodLabel × Outcome)
  | execute r q => (Outcome.ofReply? (r.dispatch q).reply).map (MethodLabel.ofMethod q.method, ·)
  | _ => none

def loaded? : Operation → Option Origin
  | load l path w => (l.load path w).result.toOption.map Loaded.origin
  | _ => none

theorem dispatched?_eq_some_iff {label : MethodLabel} {outcome : Outcome} :
    op.dispatched? = some (label, outcome) ↔ op.Dispatches label outcome := by
  constructor
  · intro h
    cases op with
    | execute r q =>
        obtain ⟨outcome', hreply, h⟩ := Option.map_eq_some_iff.1 h
        cases h
        exact .intro (MethodLabel.ofMethod_eq_iff.1 rfl) (Outcome.ofReply?_eq_some_iff.1 hreply)
    | resolve | locate | swap | load => cases h
  · rintro ⟨hlabel, hshown⟩
    rw [dispatched?, Outcome.ofReply?_eq_some_iff.2 hshown, Option.map_some, MethodLabel.ofMethod_eq_iff.2 hlabel]

theorem loaded?_eq_some_iff {origin : Origin} : op.loaded? = some origin ↔ op.Loads origin := by
  constructor
  · intro h
    cases op with
    | load l path w =>
        rw [loaded?] at h
        cases hresult : (l.load path w).result with
        | error f =>
            rw [hresult] at h
            cases h
        | ok loaded =>
            rw [hresult] at h
            cases h
            exact .intro hresult
    | execute | resolve | locate | swap => cases h
  · rintro ⟨hloaded⟩
    rw [loaded?, hloaded]
    rfl

instance (op : Operation) (label : MethodLabel) (outcome : Outcome) : Decidable (op.Dispatches label outcome) :=
  decidable_of_iff _ dispatched?_eq_some_iff

instance (op : Operation) (origin : Origin) : Decidable (op.Loads origin) :=
  decidable_of_iff _ loaded?_eq_some_iff

theorem isSome_dispatched? (op : Operation) : op.dispatched?.isSome = op.returned := by
  cases op with
  | execute r q =>
      rw [dispatched?, returned, Option.isSome_map]
      cases (r.dispatch q).reply <;> rfl
  | resolve | locate | swap | load => rfl

theorem isSome_loaded? (op : Operation) : op.loaded?.isSome = op.loaded := by
  cases op with
  | load l path w =>
      rw [loaded?, loaded, Option.isSome_map]
      cases (l.load path w).result <;> rfl
  | execute | resolve | locate | swap => rfl

theorem apply_eq (op : Operation) (m : Metrics) :
    op.apply m =
      ⟨op.dispatched?.toList.foldl Counter.increment m.dispatches,
        (op.dispatched?.toList.map Prod.snd).foldl Counter.increment m.durations,
        op.loaded?.toList.foldl Counter.increment m.loads⟩ := by
  have heffect := effect_apply op m
  generalize op.apply m = m' at heffect ⊢
  cases heffect with
  | executed hlabel hshown =>
      rw [Router.run_execute] at hshown
      rw [dispatched?_eq_some_iff.2 ⟨hlabel, hshown⟩]
      rfl
  | brokenOff hcrash =>
      rw [Router.run_execute] at hcrash
      rw [dispatched?, hcrash]
      rfl
  | loaded hloaded =>
      rw [loaded?_eq_some_iff.2 ⟨hloaded⟩]
      rfl
  | failed hfailed =>
      rw [loaded?, hfailed]
      rfl
  | resolved | located | swapped => rfl

end Operation

def after (ops : List Operation) : Metrics :=
  ops.foldl Operation.apply {}

theorem after_append (ops : List Operation) (op : Operation) : after (ops ++ [op]) = op.apply (after ops) := by
  rw [after, List.foldl_append]
  rfl

theorem after_eq (ops : List Operation) :
    after ops =
      ⟨.tally (ops.filterMap Operation.dispatched?), .tally ((ops.filterMap Operation.dispatched?).map Prod.snd),
        .tally (ops.filterMap Operation.loaded?)⟩ := by
  induction ops using List.reverseRecOn with
  | nil => rfl
  | append_singleton ops op ih =>
      -- the last operation adds at most one key to each of the three lists
      rw [after_append, Operation.apply_eq, ih]
      simp only [Counter.tally, List.filterMap_append, List.map_append, List.foldl_append]
      cases hd : op.dispatched? <;> cases hl : op.loaded? <;> simp [hd, hl]

structure Accounts (ops : List Operation) (m : Metrics) : Prop where
  dispatches_total : m.dispatches.total = ops.countP (·.returned)
  dispatches_count : ∀ label outcome,
    m.dispatches.count (label, outcome) = ops.countP fun op => op.Dispatches label outcome
  -- the series of an outcome, whatever their methods
  durations_count : ∀ outcome, m.durations.count outcome = (m.dispatches.restrict (·.2 == outcome)).total
  dispatches_bounded : m.dispatches.series.length ≤ 12
  loads_total : m.loads.total = ops.countP (·.loaded)
  loads_count : ∀ origin, m.loads.count origin = ops.countP fun op => op.Loads origin

/-- Every dispatch that returned and every load that succeeded is counted once, under its own label and outcome or
its origin, and nothing else is counted. -/
theorem accounts_after (ops : List Operation) :
    Accounts ops (after ops) ∧ ∀ op : Operation, op.Effect (after ops) (after (ops ++ [op])) := by
  constructor
  · rw [after_eq]
    refine ⟨?_, fun label outcome => ?_, fun outcome => ?_, ?_, ?_, fun origin => ?_⟩
    · simp only [Counter.total_tally_filterMap, Operation.isSome_dispatched?]
    · simp only [Counter.count_tally_filterMap, Operation.dispatched?_eq_some_iff]
    · rw [Counter.count_tally, Counter.total_restrict_tally, List.count, List.countP_map]
      rfl
    · exact Counter.length_series_tally_le mem_labels _
    · simp only [Counter.total_tally_filterMap, Operation.isSome_loaded?]
    · simp only [Counter.count_tally_filterMap, Operation.loaded?_eq_some_iff]
  · intro op
    rw [after_append]
    exact op.effect_apply _

end Metrics
end Signpost
