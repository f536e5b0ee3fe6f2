import Mathlib.Data.List.Nodup
import Signpost.Json.Record
import Signpost.Proofs.Lookup

namespace Signpost.Json

/-- A field of a record: its name, what may be written in it and whether it may be left out. -/
structure Slot where
  name : String
  Fits : Json → Prop
  MayLack : Prop

def Slot.exact (name : String) (value : Json) (mayLack : Prop) : Slot :=
  ⟨name, (· = value), mayLack⟩

/-- Fields of a record in their order, without some that may be left out. -/
inductive Chosen : List Slot → List (String × Json) → Prop
  | nil : Chosen [] []
  | keep {slot slots v fields} (hv : slot.Fits v) (h : Chosen slots fields) :
      Chosen (slot :: slots) ((slot.name, v) :: fields)
  | lack {slot slots fields} (hlack : slot.MayLack) (h : Chosen slots fields) : Chosen (slot :: slots) fields

/-- An object with these fields of a record in any order, and others of unknown names among them. -/
inductive IsRecord (slots : List Slot) : Json → Prop
  | intro {known foreign fields} (hknown : Chosen slots known)
      (hforeign : ∀ field ∈ foreign, ∀ slot ∈ slots, field.1 ≠ slot.name) (hfields : fields.Perm (known ++ foreign)) :
      IsRecord slots (.obj fields)

variable {d : Dialect} {slot : Slot} {slots : List Slot} {fields : List (String × Json)} {names : List String}
  {name : String} {v : Json}

/-- Nothing is left out, and nothing is added. -/
theorem isRecord_of_chosen (h : Chosen slots fields) : IsRecord slots (.obj fields) := by
  have hforeign : ∀ field ∈ ([] : List (String × Json)), ∀ slot ∈ slots, field.1 ≠ slot.name := by simp
  apply IsRecord.intro h hforeign
  rw [List.append_nil]

theorem Chosen.names_sublist (h : Chosen slots fields) : (fields.map Prod.fst).Sublist (slots.map Slot.name) := by
  induction h with
  | nil => exact .slnil
  | keep _ _ ih => exact ih.cons_cons _
  | lack _ _ ih => exact ih.cons _

theorem Chosen.name_mem (h : Chosen slots fields) (hv : (name, v) ∈ fields) : name ∈ slots.map Slot.name := by
  apply h.names_sublist.subset
  exact List.mem_map_of_mem hv

theorem Chosen.countP_le_one (h : Chosen slots fields) (hnodup : (slots.map Slot.name).Nodup) (name : String) :
    fields.countP (fun field => field.1 == name) ≤ 1 := by
  have honce := List.nodup_iff_count_le_one.1 (h.names_sublist.nodup hnodup) name
  rw [List.count, List.countP_map] at honce
  exact honce

theorem Chosen.written_or_lacks (h : Chosen slots fields) (hnodup : (slots.map Slot.name).Nodup)
    (hslot : slot ∈ slots) :
    (∃ v, slot.Fits v ∧ (slot.name, v) ∈ fields) ∨ slot.MayLack ∧ ∀ v, (slot.name, v) ∉ fields := by
  induction h with
  | nil => cases hslot
  | @keep slot' slots v' fields hv' h ih =>
      rw [List.map_cons, List.nodup_cons] at hnodup
      rcases List.mem_cons.1 hslot with rfl | hslot
      · exact .inl ⟨v', hv', List.mem_cons_self⟩
      · rcases ih hnodup.2 hslot with ⟨v, hv, hmem⟩ | ⟨hlack, hnone⟩
        · exact .inl ⟨v, hv, List.mem_cons_of_mem _ hmem⟩
        · refine .inr ⟨hlack, fun v hmem => ?_⟩
          rcases List.mem_cons.1 hmem with heq | hmem
          · apply hnodup.1
            rw [← (Prod.mk.inj heq).1]
            exact List.mem_map_of_mem hslot
          · exact hnone v hmem
  | @lack slot' slots fields hlack h ih =>
      rw [List.map_cons, List.nodup_cons] at hnodup
      rcases List.mem_cons.1 hslot with rfl | hslot
      · exact .inr ⟨hlack, fun v hmem => hnodup.1 (h.name_mem hmem)⟩
      · exact ih hnodup.2 hslot

theorem noneRepeated_iff :
    noneRepeated names fields = true ↔ ∀ name ∈ names, fields.countP (fun field => field.1 == name) ≤ 1 := by
  simp [noneRepeated]

structure Fills (names : List String) (slots : List Slot) (fields : List (String × Json)) : Prop where
  names_eq : slots.map Slot.name = names
  once : noneRepeated names fields = true
  written_or_lacks : ∀ slot ∈ slots,
    (∃ v, slot.Fits v ∧ (slot.name, v) ∈ fields) ∨ slot.MayLack ∧ ∀ v, (slot.name, v) ∉ fields

theorem IsRecord.fills (h : IsRecord slots v) (names : List String) (hnames : slots.map Slot.name = names)
    (hnodup : names.Nodup) : ∃ fields, v = .obj fields ∧ Fills names slots fields := by
  cases h with
  | @intro known foreign fields hknown hforeign hfields =>
      rw [← hnames] at hnodup
      have hforeign' : ∀ slot ∈ slots, ∀ v, (slot.name, v) ∉ foreign :=
        fun slot hslot v hmem => hforeign _ hmem slot hslot rfl
      refine ⟨fields, rfl, hnames, noneRepeated_iff.2 fun name hname => ?_, fun slot hslot => ?_⟩
      · rw [← hnames] at hname
        obtain ⟨slot, hslot, rfl⟩ := List.mem_map.1 hname
        have hnone : foreign.countP (fun field => field.1 == slot.name) = 0 := by
          apply List.countP_eq_zero.2
          intro field hfield heq
          exact hforeign field hfield slot hslot (beq_iff_eq.1 heq)
        rw [hfields.countP_eq, List.countP_append, hnone]
        exact hknown.countP_le_one hnodup slot.name
      · simp only [hfields.mem_iff, List.mem_append, not_or]
        rcases hknown.written_or_lacks hnodup hslot with ⟨v, hv, hmem⟩ | ⟨hlack, hnone⟩
        · exact .inl ⟨v, hv, .inl hmem⟩
        · exact .inr ⟨hlack, fun v => ⟨hnone v, hforeign' slot hslot v⟩⟩

theorem lookup_of_noneRepeated (h : noneRepeated names fields = true) (hname : name ∈ names) :
    fields.lookup name = some v ↔ (name, v) ∈ fields :=
  lookup_eq_some_iff_mem (noneRepeated_iff.1 h name hname)

theorem record?_obj_eq_some_iff {found : List (String × Json)} :
    record? d names (.obj fields) = some found ↔ noneRepeated names fields = true ∧ fields = found := by
  rw [record?]
  split <;> simp [*]

theorem partialRecord?_obj_eq_some_iff {found : List (String × Json)} :
    partialRecord? d names (.obj fields) = some found ↔ noneRepeated names fields = true ∧ fields = found := by
  rw [partialRecord?]
  split <;> simp [*]

namespace Fills

variable {α : Type} {read? : Json → Option α} {a dflt : α} {value : Json} {Fits : Json → Prop} {mayLack : Prop}

theorem record?_eq (h : Fills names slots fields) : record? d names (.obj fields) = some fields :=
  record?_obj_eq_some_iff.2 ⟨h.once, rfl⟩

theorem partialRecord?_eq (h : Fills names slots fields) : partialRecord? d names (.obj fields) = some fields :=
  partialRecord?_obj_eq_some_iff.2 ⟨h.once, rfl⟩

theorem lookup_eq (h : Fills names slots fields) (hslot : slot ∈ slots) (hv : (slot.name, v) ∈ fields) :
    fields.lookup slot.name = some v := by
  apply (lookup_of_noneRepeated h.once ?_).2 hv
  rw [← h.names_eq]
  exact List.mem_map_of_mem hslot

theorem fieldOr_eq (h : Fills names slots fields) (hslot : ⟨name, Fits, mayLack⟩ ∈ slots)
    (hread : ∀ v, Fits v → read? v = some a) (hlack : mayLack → dflt = a) :
    fieldOr fields name dflt read? = some a := by
  rw [fieldOr]
  rcases h.written_or_lacks _ hslot with ⟨v, hv, hmem⟩ | ⟨hlacks, hnone⟩
  · rw [h.lookup_eq hslot hmem]
    exact hread v hv
  · rw [lookup_of_not_mem hnone, hlack hlacks]

theorem fieldOr_exact_eq (h : Fills names slots fields) (hslot : .exact name value mayLack ∈ slots)
    (hread : read? value = some a) (hlack : mayLack → dflt = a) : fieldOr fields name dflt read? = some a := by
  apply h.fieldOr_eq hslot ?_ hlack
  rintro v rfl
  exact hread

theorem required_exact_eq (h : Fills names slots fields) (hslot : .exact name value False ∈ slots)
    (hread : read? value = some a) : required fields name read? = some a := by
  rw [required]
  rcases h.written_or_lacks _ hslot with ⟨v, rfl, hmem⟩ | ⟨hlacks, -⟩
  · have hlookup := h.lookup_eq hslot hmem
    exact Option.bind_eq_some_iff.2 ⟨v, hlookup, hread⟩
  · exact hlacks.elim

end Fills

theorem required_eq_none {α : Type} {read? : Json → Option α} (h : ∀ v, (name, v) ∉ fields) :
    required fields name read? = none := by
  rw [required, lookup_of_not_mem h]
  rfl

theorem fieldOr_of_mem {α : Type} {read? : Json → Option α} {dflt : α} (h : noneRepeated names fields = true)
    (hname : name ∈ names) (hv : (name, v) ∈ fields) : fieldOr fields name dflt read? = read? v := by
  rw [fieldOr, (lookup_of_noneRepeated h hname).2 hv]

theorem natBelow?_int {bound n : Nat} (h : n < bound) : natBelow? bound (.int n) = some n :=
  if_pos h

theorem natBelow?_int_of_le {bound n : Nat} (h : bound ≤ n) : natBelow? bound (.int n) = none :=
  if_neg (Nat.not_lt.2 h)

end Signpost.Json
