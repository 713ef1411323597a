import CellScript.Proofs.Tuples.Fields
import Mathlib.Data.List.Nodup

/-! The index of a tuple. Every tuple that fields make has a place in its index for each label that is
not empty, and no label twice. So a name is found where it stands; fields make a tuple exactly if no
two of them have the same name, and joining is joining the fields. -/
namespace CellScript.Tuple

variable {α : Type} {t u v w : Tuple α} {fields : List (Text × α)}

def fieldNames (fields : List (Text × α)) : List Text := (fields.map (·.1)).filter (!·.isEmpty)

theorem fieldNames_append (fields more : List (Text × α)) :
    fieldNames (fields ++ more) = fieldNames fields ++ fieldNames more := by
  unfold fieldNames
  rw [List.map_append, List.filter_append]

theorem nodup_named_iff {labels : List Text} :
    (labels.filter (!·.isEmpty)).Nodup ↔ labels.Pairwise fun name other => name ≠ [] → name ≠ other := by
  rw [List.Nodup, List.pairwise_filter]
  refine List.Pairwise.iff fun name other => ?_
  simp only [Bool.not_eq_true', List.isEmpty_eq_false_iff]
  constructor
  · rintro apart named rfl
    exact apart named named rfl
  · exact fun apart named _ => apart named

theorem nodup_fieldNames_iff :
    (fieldNames fields).Nodup ↔ fields.Pairwise fun f g => f.1 ≠ [] → f.1 ≠ g.1 := by
  rw [fieldNames, nodup_named_iff, List.pairwise_map]

theorem repeated?_eq_none {seen : List Text} :
    repeated? seen fields = none ↔
      (fieldNames fields).Nodup ∧ ∀ name ∈ fieldNames fields, name ∉ seen := by
  induction fields generalizing seen with
  | nil => exact ⟨fun _ => ⟨List.nodup_nil, fun _ member => absurd member List.not_mem_nil⟩, fun _ => rfl⟩
  | cons field rest ih =>
    obtain ⟨name, x⟩ := field
    unfold repeated?
    by_cases unnamed : name.isEmpty
    · have same : fieldNames ((name, x) :: rest) = fieldNames rest := by
        simp [fieldNames, unnamed]
      rw [if_pos unnamed, same, ih]
    · have same : fieldNames ((name, x) :: rest) = name :: fieldNames rest := by
        simp [fieldNames, unnamed]
      rw [if_neg unnamed, same]
      by_cases again : name ∈ seen
      · rw [if_pos (List.contains_iff_mem.mpr again)]
        constructor
        · intro same
          cases same
        · intro fresh
          exact absurd again (fresh.2 name List.mem_cons_self)
      · rw [if_neg (mt List.contains_iff_mem.mp again), ih, List.nodup_cons, List.forall_mem_cons]
        simp only [List.mem_cons, not_or]
        constructor
        · rintro ⟨distinct, fresh⟩
          refine ⟨⟨fun member => ?_, distinct⟩, again, fun other member => (fresh other member).2⟩
          exact (fresh name member).1 rfl
        · rintro ⟨⟨first, distinct⟩, -, fresh⟩
          refine ⟨distinct, fun other member => ⟨?_, fresh other member⟩⟩
          rintro rfl
          exact first member

/-- Fields make a tuple exactly if no two of them have the same name. -/
theorem ofFields_eq_ok_iff : ofFields fields = .ok t ↔ (fieldNames fields).Nodup ∧ t = ofDistinct fields := by
  rw [ofFields_eq_ok, repeated?_eq_none]
  simp

theorem ofFields_of_distinct (distinct : (fieldNames fields).Nodup) :
    ofFields fields = .ok (ofDistinct fields) :=
  ofFields_eq_ok_iff.mpr ⟨distinct, rfl⟩

theorem exists_ofFields_eq_error_iff :
    (∃ name, ofFields fields = .error name) ↔ ¬(fieldNames fields).Nodup := by
  cases made : ofFields fields with
  | ok t => exact ⟨nofun, fun again => absurd (ofFields_eq_ok_iff.mp made).1 again⟩
  | error name =>
    refine ⟨fun _ distinct => ?_, fun _ => ⟨name, rfl⟩⟩
    rw [ofFields_of_distinct distinct] at made
    cases made

theorem toOption_ofFields (fields : List (Text × α)) :
    (ofFields fields).toOption = if (fieldNames fields).Nodup then some (ofDistinct fields) else none := by
  split
  next distinct =>
    rw [ofFields_of_distinct distinct]
    rfl
  next again =>
    obtain ⟨name, failed⟩ := exists_ofFields_eq_error_iff.mpr again
    rw [failed]
    rfl

/-! ### The parts of a tuple -/

theorem items_pushAll (t : Tuple α) (fields : List (Text × α)) :
    (t.pushAll fields).items = t.items ++ (fields.map (·.2)).toArray := by
  unfold pushAll
  induction fields generalizing t with
  | nil => simp
  | cons field rest ih => rw [List.foldl_cons, ih]; simp [push]

theorem labels_pushAll (t : Tuple α) (fields : List (Text × α)) :
    (t.pushAll fields).labels = t.labels ++ (fields.map (·.1)).toArray := by
  unfold pushAll
  induction fields generalizing t with
  | nil => simp
  | cons field rest ih => rw [List.foldl_cons, ih]; simp [push]

theorem items_ofDistinct (fields : List (Text × α)) :
    (ofDistinct fields).items = (fields.map (·.2)).toArray := by
  rw [ofDistinct, items_pushAll]
  exact Array.empty_append

theorem labels_ofDistinct (fields : List (Text × α)) :
    (ofDistinct fields).labels = (fields.map (·.1)).toArray := by
  rw [ofDistinct, labels_pushAll]
  exact Array.empty_append

/-- A tuple gives back the fields that it was made of. -/
theorem fields_ofDistinct (fields : List (Text × α)) : (ofDistinct fields).fields = fields := by
  rw [Tuple.fields, items_ofDistinct, labels_ofDistinct, List.zip_map']
  exact List.map_id fields

theorem names_ofDistinct (fields : List (Text × α)) : (ofDistinct fields).names = fieldNames fields := by
  unfold names fieldNames
  rw [labels_ofDistinct]

/-! ### Tuples whose index is sound -/

/-- Each item has a label. The index gives every label that is not empty its place, and no label stands
at two of them. -/
structure Indexed (t : Tuple α) : Prop where
  labelled : t.labels.size = t.items.size
  places : t.places = t.labels.toList.zipIdx.filter (!·.1.isEmpty)
  distinct : t.names.Nodup

theorem labelled_pushAll (labelled : t.labels.size = t.items.size) (fields : List (Text × α)) :
    (t.pushAll fields).labels.size = (t.pushAll fields).items.size := by
  rw [labels_pushAll, items_pushAll, Array.size_append, Array.size_append, labelled]
  simp

theorem places_pushAll (labelled : t.labels.size = t.items.size)
    (places : t.places = t.labels.toList.zipIdx.filter (!·.1.isEmpty)) (fields : List (Text × α)) :
    (t.pushAll fields).places = (t.pushAll fields).labels.toList.zipIdx.filter (!·.1.isEmpty) := by
  unfold pushAll
  induction fields generalizing t with
  | nil => exact places
  | cons field rest ih =>
    obtain ⟨name, x⟩ := field
    refine ih ?_ ?_
    · simpa [push] using labelled
    · change (t.push name x).places = (t.labels.push name).toList.zipIdx.filter (!·.1.isEmpty)
      rw [Array.toList_push, List.zipIdx_append, List.filter_append, ← places, push, size, ← labelled]
      by_cases unnamed : name.isEmpty <;> simp [unnamed]

namespace Indexed

theorem ofDistinct (distinct : (fieldNames fields).Nodup) : (Tuple.ofDistinct fields).Indexed where
  labelled := labelled_pushAll rfl fields
  places := places_pushAll rfl rfl fields
  distinct := names_ofDistinct fields ▸ distinct

theorem ofFields (made : Tuple.ofFields fields = .ok t) : t.Indexed := by
  obtain ⟨distinct, rfl⟩ := ofFields_eq_ok_iff.mp made
  exact .ofDistinct distinct

theorem empty : (Tuple.empty : Tuple α).Indexed :=
  ofFields (show Tuple.ofFields ([] : List (Text × α)) = .ok .empty from rfl)

theorem labels_fields (indexed : t.Indexed) : t.fields.map (·.1) = t.labels.toList :=
  List.map_fst_zip (Nat.le_of_eq indexed.labelled)

theorem items_fields (indexed : t.Indexed) : t.fields.map (·.2) = t.items.toList :=
  List.map_snd_zip (Nat.le_of_eq indexed.labelled.symm)

theorem names_eq (indexed : t.Indexed) : t.names = t.places.map (·.1) := by
  rw [indexed.places]
  unfold names
  conv_lhs => rw [← List.zipIdx_map_fst 0 t.labels.toList, List.filter_map]
  rfl

theorem position?_eq_some_iff_mem (indexed : t.Indexed) {name : Text} {place : Nat} :
    t.position? name = some place ↔ (name, place) ∈ t.places :=
  lookup_eq_some_iff_mem (indexed.names_eq ▸ indexed.distinct)

/-- The index sends exactly the labels that are not empty to where they stand. -/
theorem position?_eq_some_iff (indexed : t.Indexed) {name : Text} {place : Nat} :
    t.position? name = some place ↔ name ≠ [] ∧ t.labels[place]? = some name := by
  rw [indexed.position?_eq_some_iff_mem, indexed.places, List.mem_filter,
    List.mk_mem_zipIdx_iff_getElem?, Array.getElem?_toList, and_comm]
  simp

/-- Names are listed as their places ascend. -/
theorem names_pairwise (indexed : t.Indexed) : t.names.Pairwise fun name other =>
    ∃ place later, t.position? name = some place ∧ t.position? other = some later ∧ place < later := by
  have ascending : t.places.Pairwise fun e f => e.2 < f.2 := by
    rw [indexed.places]
    refine List.Pairwise.filter _ ?_
    rw [← List.pairwise_map (f := Prod.snd), List.zipIdx_map_snd]
    exact List.pairwise_lt_range'
  rw [indexed.names_eq, List.pairwise_map]
  refine List.Pairwise.imp_of_mem (fun {e f} member member' below => ?_) ascending
  exact ⟨e.2, f.2, indexed.position?_eq_some_iff_mem.mpr member,
    indexed.position?_eq_some_iff_mem.mpr member', below⟩

theorem mem_names_iff (indexed : t.Indexed) {name : Text} :
    name ∈ t.names ↔ (t.position? name).isSome = true := by
  rw [indexed.names_eq, List.mem_map, Option.isSome_iff_exists]
  constructor
  · rintro ⟨⟨_, place⟩, member, rfl⟩
    exact ⟨place, indexed.position?_eq_some_iff_mem.mpr member⟩
  · rintro ⟨place, found⟩
    exact ⟨(name, place), indexed.position?_eq_some_iff_mem.mp found, rfl⟩

/-- Asking for a name is asking for its place, counted from one; the item is there. -/
theorem item_of_position? (indexed : t.Indexed) {name : Text} {place : Nat}
    (found : t.position? name = some place) :
    ∃ x, t.items[place]? = some x ∧ t.field? name = some x ∧
      ∀ position : Int64, position.toInt = place + 1 → t.get? position = some x := by
  have given := (indexed.position?_eq_some_iff.mp found).2
  have inside : place < t.items.size := by
    rw [← indexed.labelled]
    exact (Array.getElem?_eq_some_iff.mp given).1
  have item : t.items[place]? = some t.items[place] := Array.getElem?_eq_getElem inside
  refine ⟨t.items[place], item, ?_, fun position counted => ?_⟩
  · rw [field?, found, Option.bind_some, item]
  · have least : ¬position < 1 := by
      rw [Int64.lt_iff_toInt_lt, counted]
      change ¬(place + 1 : Int) < 1
      omega
    have back : position.toInt.toNat - 1 = place := by omega
    rw [get?, if_neg least, back, item]

end Indexed

/-! ### Joined tuples -/

namespace Indexed

theorem nodup_fieldNames_append (indexed : t.Indexed) (indexed' : u.Indexed) :
    (fieldNames (t.fields ++ u.fields)).Nodup ↔ t.names.Disjoint u.names := by
  have names {t : Tuple α} (indexed : t.Indexed) : fieldNames t.fields = t.names := by
    rw [fieldNames, indexed.labels_fields]
    rfl
  rw [fieldNames_append, names indexed, names indexed', List.nodup_append']
  simp only [indexed.distinct, indexed'.distinct, true_and]

theorem labels_append (indexed : t.Indexed) (indexed' : u.Indexed) :
    (Tuple.ofDistinct (t.fields ++ u.fields)).labels = t.labels ++ u.labels := by
  rw [labels_ofDistinct, List.map_append, indexed.labels_fields, indexed'.labels_fields,
    ← Array.toList_append, Array.toArray_toList]

theorem items_append (indexed : t.Indexed) (indexed' : u.Indexed) :
    (Tuple.ofDistinct (t.fields ++ u.fields)).items = t.items ++ u.items := by
  rw [items_ofDistinct, List.map_append, indexed.items_fields, indexed'.items_fields,
    ← Array.toList_append, Array.toArray_toList]

end Indexed

/-- Fields that are made a tuple first, with others around them, fail or make what all of them do. -/
theorem toOption_ofFields_within (before fields after : List (Text × α)) :
    ((ofFields fields).bind fun w => ofFields (before ++ w.fields ++ after)).toOption =
      (ofFields (before ++ fields ++ after)).toOption := by
  have through : ((ofFields fields).bind fun w => ofFields (before ++ w.fields ++ after)).toOption =
      (ofFields fields).toOption.bind fun w => (ofFields (before ++ w.fields ++ after)).toOption := by
    cases ofFields fields <;> rfl
  rw [through, toOption_ofFields fields]
  split
  next => rw [Option.bind_some, fields_ofDistinct]
  next again =>
    rw [Option.bind_none, toOption_ofFields, if_neg]
    rw [fieldNames_append, fieldNames_append]
    exact fun distinct => again (List.Nodup.of_append_left distinct).of_append_right

theorem append?_assoc (t u v : Tuple α) :
    ((t.append? u).bind (·.append? v)).toOption = ((u.append? v).bind t.append?).toOption := by
  have left := toOption_ofFields_within [] (t.fields ++ u.fields) v.fields
  have right := toOption_ofFields_within t.fields (u.fields ++ v.fields) []
  simp only [List.append_nil, ← List.append_assoc] at right
  exact left.trans right.symm

end CellScript.Tuple
