import Signpost.Proofs.Json.RoundTrip

namespace Signpost.Json

mutual

def IsExact : Json → Prop
  | int n => -(Word.count 63 : Int) ≤ n ∧ n < Word.count 64
  | real _ => False
  | illFormed => False
  | arr items => ItemsExact items
  | obj fields => fields.Pairwise (fun f g => f.1 < g.1) ∧ FieldsExact fields
  | _ => True

def ItemsExact : List Json → Prop
  | [] => True
  | v :: vs => IsExact v ∧ ItemsExact vs

def FieldsExact : List (String × Json) → Prop
  | [] => True
  | (_, v) :: fields => IsExact v ∧ FieldsExact fields

end

mutual

theorem isPlain_of_isExact (v : Json) (hv : v.IsExact) : v.IsPlain := by
  cases v with
  | null | bool _ | str _ => trivial
  | int n => exact hv
  | real _ | illFormed => exact hv.elim
  | arr items => exact itemsPlain_of_itemsExact items hv
  | obj fields => exact fieldsPlain_of_fieldsExact fields hv.2

theorem itemsPlain_of_itemsExact (vs : List Json) (hvs : ItemsExact vs) : ItemsPlain vs := by
  cases vs with
  | nil => trivial
  | cons v vs => exact ⟨isPlain_of_isExact v hvs.1, itemsPlain_of_itemsExact vs hvs.2⟩

theorem fieldsPlain_of_fieldsExact (fields : List (String × Json)) (hfs : FieldsExact fields) :
    FieldsPlain fields := by
  cases fields with
  | nil => trivial
  | cons f fields => exact ⟨isPlain_of_isExact f.2 hfs.1, fieldsPlain_of_fieldsExact fields hfs.2⟩

end

mutual

theorem isText_of_isPlain (v : Json) (hv : v.IsPlain) : v.isText = true := by
  cases v with
  | null | bool _ | int _ | real _ | str _ => rfl
  | illFormed => exact hv.elim
  | arr items => exact itemsAreText_of_itemsPlain items hv
  | obj fields => exact fieldsAreText_of_fieldsPlain fields hv

theorem itemsAreText_of_itemsPlain (vs : List Json) (hvs : ItemsPlain vs) : itemsAreText vs = true := by
  cases vs with
  | nil => rfl
  | cons v vs => rw [itemsAreText, isText_of_isPlain v hvs.1, itemsAreText_of_itemsPlain vs hvs.2, Bool.and_self]

theorem fieldsAreText_of_fieldsPlain (fields : List (String × Json)) (hfs : FieldsPlain fields) :
    fieldsAreText fields = true := by
  cases fields with
  | nil => rfl
  | cons f fields =>
      rw [fieldsAreText, isText_of_isPlain f.2 hfs.1, fieldsAreText_of_fieldsPlain fields hfs.2, Bool.and_self]

end

/-- A field whose key is behind all others comes last. -/
theorem insertField_of_lt {k : String} (v : Json) {done : List (String × Json)} (h : ∀ f ∈ done, f.1 < k) :
    insertField k v done = done ++ [(k, v)] := by
  induction done with
  | nil => rfl
  | cons f done ih =>
      obtain ⟨j, u⟩ := f
      have hj : j < k := h _ List.mem_cons_self
      have hne : k ≠ j := by
        rintro rfl
        exact String.lt_irrefl k hj
      rw [insertField, if_neg (String.lt_asymm hj), if_neg hne, ih fun f hf => h f (List.mem_cons_of_mem _ hf)]
      rfl

mutual

theorem canonical_of_isExact (v : Json) (hv : v.IsExact) : v.canonical = v := by
  cases v with
  | null | bool _ | int _ | str _ => rfl
  | real _ | illFormed => exact hv.elim
  | arr items => rw [canonical, canonicalItems_of_itemsExact items hv]
  | obj fields =>
      rw [canonical, canonicalFields_of_fieldsExact [] fields hv.1 hv.2]
      rfl

theorem canonicalItems_of_itemsExact (vs : List Json) (hvs : ItemsExact vs) : canonicalItems vs = vs := by
  cases vs with
  | nil => rfl
  | cons v vs => rw [canonicalItems, canonical_of_isExact v hvs.1, canonicalItems_of_itemsExact vs hvs.2]

/-- Fields in the order of their keys are inserted one behind the other. -/
theorem canonicalFields_of_fieldsExact (done fields : List (String × Json))
    (hkeys : (done ++ fields).Pairwise fun f g => f.1 < g.1) (hfs : FieldsExact fields) :
    canonicalFields done fields = done ++ fields := by
  cases fields with
  | nil => exact (List.append_nil done).symm
  | cons f fields =>
      obtain ⟨k, v⟩ := f
      have hlast : ∀ f ∈ done, f.1 < k :=
        fun f hf => (List.pairwise_append.1 hkeys).2.2 f hf (k, v) List.mem_cons_self
      have happend : done ++ (k, v) :: fields = done ++ [(k, v)] ++ fields := by
        rw [List.append_assoc, List.singleton_append]
      rw [happend] at hkeys ⊢
      rw [canonicalFields, canonical_of_isExact v hfs.1, insertField_of_lt v hlast,
        canonicalFields_of_fieldsExact (done ++ [(k, v)]) fields hkeys hfs.2]

end

variable {v w : Json}

/-- The reader takes what was written for a value that does not nest too deep, and no other. -/
theorem value?_toText (hv : v.IsPlain) :
    value? v.toText = if v.depth ≤ maxDepth then some v.canonical else none := by
  rw [value?, ofText?_toText hv]
  simp only [isText_of_isPlain v hv, and_true]

theorem value?_toText_of_isExact (hv : v.IsExact) (hdepth : v.depth ≤ maxDepth) : value? v.toText = some v := by
  rw [value?_toText (isPlain_of_isExact v hv), if_pos hdepth, canonical_of_isExact v hv]

theorem eq_of_toText (hv : v.IsPlain) (hw : w.IsPlain) (h : v.toText = w.toText) : v = w := by
  have hread : ofText? w.toText = some v := by
    rw [← h]
    exact ofText?_toText hv
  rw [ofText?_toText hw] at hread
  exact (Option.some.inj hread).symm

end Signpost.Json
