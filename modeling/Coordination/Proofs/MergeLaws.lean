import Mathlib.Data.List.Sort
import Mathlib.Data.String.Basic
import Coordination.Json.Merge

/-!
Layering one JSON value over another, key by key. A value read from text lists the keys of each
object in increasing order, once each (`Value.Sorted`). For such values the merge of two objects
is the object whose entry at each key is the old one, unless the new value holds something
other than `null` there, which then replaces it, or is merged into it when both hold the key
(`get?_mergeFields`). Merging a value over itself changes nothing, and layering the same value
on top twice is layering it once.
-/

namespace Coordination.Json

/-- Entries whose keys strictly increase. -/
def Fields.Sorted (kvs : List (String × Value)) : Prop := kvs.Pairwise (·.1 < ·.1)

instance (kvs : List (String × Value)) : Decidable (Fields.Sorted kvs) :=
  inferInstanceAs (Decidable (kvs.Pairwise _))

/-- Every object inside the value lists its keys in strictly increasing order. -/
inductive Value.Sorted : Value → Prop
  | null : Value.Sorted .null
  | bool (b : Bool) : Value.Sorted (.bool b)
  | num (n : Number) : Value.Sorted (.num n)
  | str (s : String) : Value.Sorted (.str s)
  | arr {xs : List Value} : (∀ x ∈ xs, x.Sorted) → Value.Sorted (.arr xs)
  | obj {kvs : List (String × Value)} :
      Fields.Sorted kvs → (∀ kv ∈ kvs, kv.2.Sorted) → Value.Sorted (.obj kvs)

@[simp] theorem Value.isNull_iff (v : Value) : v.isNull = true ↔ v = .null := by
  cases v <;> simp [Value.isNull]

namespace Fields

variable {k k' : String} {v : Value} {kvs l₁ l₂ : List (String × Value)}

@[simp] theorem get?_nil : get? k [] = none := rfl

theorem get?_cons (kv : String × Value) (rest : List (String × Value)) :
    get? k (kv :: rest) = if k = kv.1 then some kv.2 else get? k rest := rfl

theorem get?_insert : get? k (insert k' v kvs) = if k = k' then some v else get? k kvs := by
  induction kvs with
  | nil => rfl
  | cons kv rest ih =>
    obtain ⟨k₀, v₀⟩ := kv
    unfold insert
    by_cases h₁ : k' = k₀
    · subst h₁
      by_cases h : k = k' <;> simp [get?_cons, h]
    · by_cases h₂ : k' < k₀
      · simp [h₁, h₂, get?_cons]
      · by_cases h : k = k'
        · subst h; simp [h₁, h₂, get?_cons, ih]
        · simp [h₁, h₂, get?_cons, ih, h]

theorem mem_insert {kv : String × Value} (h : kv ∈ insert k v kvs) : kv = (k, v) ∨ kv ∈ kvs := by
  induction kvs with
  | nil => simpa [insert] using h
  | cons kv' rest ih =>
    obtain ⟨k₀, v₀⟩ := kv'
    unfold insert at h
    split_ifs at h
    · exact (List.mem_cons.mp h).imp_right (List.mem_cons_of_mem _)
    · exact List.mem_cons.mp h
    · rcases List.mem_cons.mp h with rfl | h
      · exact .inr List.mem_cons_self
      · exact (ih h).imp_right (List.mem_cons_of_mem _)

theorem Sorted.insert (h : Sorted kvs) : Sorted (Fields.insert k v kvs) := by
  induction kvs with
  | nil => simp [Fields.insert, Sorted]
  | cons kv rest ih =>
    obtain ⟨hlt, hrest⟩ := List.pairwise_cons.mp h
    unfold Fields.insert
    split_ifs with h₁ h₂
    · exact List.pairwise_cons.mpr ⟨fun b hb => h₁ ▸ hlt b hb, hrest⟩
    · exact List.pairwise_cons.mpr
        ⟨fun b hb => (List.mem_cons.mp hb).elim (· ▸ h₂) (lt_trans h₂ <| hlt b ·), h⟩
    · have hgt : kv.1 < k := lt_of_le_of_ne (not_lt.mp h₂) (Ne.symm h₁)
      refine List.pairwise_cons.mpr ⟨fun b hb => ?_, ih hrest⟩
      rcases mem_insert hb with rfl | hb
      · exact hgt
      · exact hlt b hb

theorem Sorted.tail {kv : String × Value} (h : Sorted (kv :: kvs)) : Sorted kvs :=
  (List.pairwise_cons.mp h).2

theorem get?_of_lt (h : ∀ kv ∈ kvs, k < kv.1) : get? k kvs = none := by
  induction kvs with
  | nil => rfl
  | cons kv rest ih =>
    rw [get?_cons, if_neg (ne_of_lt (h kv List.mem_cons_self)),
      ih fun b hb => h b (List.mem_cons_of_mem _ hb)]

theorem Sorted.mem_iff (h : Sorted kvs) : (k, v) ∈ kvs ↔ get? k kvs = some v := by
  induction kvs with
  | nil => simp
  | cons kv rest ih =>
    obtain ⟨k₀, v₀⟩ := kv
    obtain ⟨hlt, hrest⟩ := List.pairwise_cons.mp h
    rw [List.mem_cons, get?_cons, ih hrest]
    by_cases hk : k = k₀
    · subst hk
      rw [get?_of_lt (k := k) hlt]
      simp [eq_comm]
    · simp [hk]

theorem Sorted.ext (h₁ : Sorted l₁) (h₂ : Sorted l₂) (h : ∀ k, get? k l₁ = get? k l₂) :
    l₁ = l₂ := by
  have hnd : ∀ {l}, Sorted l → l.Nodup := fun hs => hs.imp fun hlt e => by
    subst e; exact lt_irrefl _ hlt
  refine List.Perm.eq_of_pairwise (fun _ _ _ _ hab hba => absurd (lt_trans hab hba) (lt_irrefl _))
    h₁ h₂ ((List.perm_ext_iff_of_nodup (hnd h₁) (hnd h₂)).mpr fun ⟨k, v⟩ => ?_)
  rw [h₁.mem_iff, h₂.mem_iff, h]

end Fields

/-- The entry at a key with `new` layered over `old`: the old entry, unless the new one holds
something other than `null`, which is merged into the old entry if there is one. -/
def layer (old new : Option Value) : Option Value :=
  match new with
  | some v => if v.isNull then old else some ((old.map (merge · v)).getD v)
  | none => old

@[simp] theorem layer_none (old : Option Value) : layer old none = old := rfl

theorem merge_obj (base top : List (String × Value)) :
    merge (.obj base) (.obj top) = .obj (mergeFields base top) := by
  simp [merge]

theorem merge_of_not_obj (t : Value) {s : Value} (hs : ∀ kvs, s ≠ .obj kvs) : merge t s = s := by
  cases t <;> cases s <;> first | rfl | exact absurd rfl (hs _)

theorem merge_of_target_not_obj {t : Value} (ht : ∀ kvs, t ≠ .obj kvs) (s : Value) : merge t s = s := by
  cases t <;> cases s <;> first | rfl | exact absurd rfl (ht _)

theorem mergeFields_cons (base rest : List (String × Value)) (k : String) (v : Value) :
    mergeFields base ((k, v) :: rest) =
      if v.isNull then mergeFields base rest
      else mergeFields (Fields.insert k ((Fields.get? k base |>.map (merge · v)).getD v) base) rest := by
  rw [mergeFields]
  cases Fields.get? k base <;> rfl

theorem Fields.Sorted.mergeFields {base : List (String × Value)} (h : Sorted base)
    (top : List (String × Value)) : Sorted (Json.mergeFields base top) := by
  induction top generalizing base with
  | nil => exact h
  | cons kv rest ih =>
    obtain ⟨k, v⟩ := kv
    rw [mergeFields_cons]
    split
    · exact ih h
    · exact ih h.insert

/-- The entry at each key of a merged object is the entry of the top layered over that of the
base: the top's entries are taken one by one, and each key occurs in it once. -/
theorem get?_mergeFields {top : List (String × Value)} (ht : Fields.Sorted top)
    (base : List (String × Value)) (k : String) :
    Fields.get? k (mergeFields base top) = layer (Fields.get? k base) (Fields.get? k top) := by
  induction top generalizing base with
  | nil => rfl
  | cons kv rest ih =>
    obtain ⟨k', v⟩ := kv
    have hrest : Fields.get? k' rest = none := Fields.get?_of_lt (List.pairwise_cons.mp ht).1
    rw [mergeFields_cons, Fields.get?_cons]
    by_cases hk : k = k'
    · subst hk
      by_cases hv : v.isNull <;> simp [hv, ih ht.tail, Fields.get?_insert, hrest, layer]
    · by_cases hv : v.isNull <;> simp [hv, ih ht.tail, Fields.get?_insert, hk]

theorem Fields.Sorted.of_value {kvs : List (String × Value)} (h : (Value.obj kvs).Sorted) :
    Fields.Sorted kvs := by
  cases h with
  | obj hs _ => exact hs

theorem Value.Sorted.entry {kvs : List (String × Value)} (h : (Value.obj kvs).Sorted)
    {k : String} {v : Value} (hk : Fields.get? k kvs = some v) : v.Sorted := by
  cases h with
  | obj hs hv => exact hv (k, v) (hs.mem_iff.mpr hk)

theorem Value.Sorted.merge {t s : Value} (ht : t.Sorted) (hs : s.Sorted) : (Json.merge t s).Sorted := by
  induction hs generalizing t with
  | @obj skv hskv hsv ih =>
    cases t with
    | obj tkv =>
      have hf := (Fields.Sorted.of_value ht).mergeFields skv
      rw [merge_obj]
      refine .obj hf fun ⟨k, w⟩ hw => ?_
      rw [hf.mem_iff, get?_mergeFields hskv] at hw
      cases hsk : Fields.get? k skv with
      | none => rw [hsk] at hw; exact ht.entry hw
      | some v =>
        have hvm : (k, v) ∈ skv := hskv.mem_iff.mpr hsk
        rw [hsk, layer] at hw
        split at hw
        · exact ht.entry hw
        · cases htk : Fields.get? k tkv with
          | none =>
            rw [htk, Option.map_none, Option.getD_none, Option.some.injEq] at hw
            exact hw ▸ hsv (k, v) hvm
          | some o =>
            rw [htk, Option.map_some, Option.getD_some, Option.some.injEq] at hw
            exact hw ▸ ih (k, v) hvm (ht.entry htk)
    | _ => exact .obj hskv hsv
  -- a top that is not an object is the result, and is sorted as it stands
  | _ => rw [merge_of_not_obj t (by simp)]; constructor <;> assumption

theorem merge_self {t : Value} (ht : t.Sorted) : merge t t = t := by
  induction ht with
  | @obj kvs hs _ ih =>
    rw [merge_obj, Value.obj.injEq]
    refine (hs.mergeFields kvs).ext hs fun k => ?_
    rw [get?_mergeFields hs]
    cases hk : Fields.get? k kvs with
    | none => rfl
    | some v => simp [layer, ih (k, v) (hs.mem_iff.mpr hk)]
  | _ => rfl

/-- Layering the same value on top twice is layering it once: by induction on the top, where a
key it holds is merged into the entry the first layering left there. -/
theorem merge_merge {t s : Value} (ht : t.Sorted) (hs : s.Sorted) :
    merge (merge t s) s = merge t s := by
  induction hs generalizing t with
  | @obj skv hskv hsv ih =>
    cases t with
    | obj tkv =>
      have htkv := Fields.Sorted.of_value ht
      rw [merge_obj, merge_obj, Value.obj.injEq]
      refine ((htkv.mergeFields skv).mergeFields skv).ext (htkv.mergeFields skv) fun k => ?_
      rw [get?_mergeFields hskv, get?_mergeFields hskv]
      cases hsk : Fields.get? k skv with
      | none => rfl
      | some v =>
        have hvm := hskv.mem_iff.mpr hsk
        by_cases hv : v.isNull
        · simp [layer, hv]
        · cases htk : Fields.get? k tkv with
          | none => simp [layer, hv, merge_self (hsv (k, v) hvm)]
          | some o => simp [layer, hv, ih (k, v) hvm (ht.entry htk)]
    | _ => exact merge_self (.obj hskv hsv)
  | _ => cases t <;> rfl

theorem get?_mergeFields_cases {skv : List (String × Value)} (hs : Fields.Sorted skv)
    (tkv : List (String × Value)) (k : String) :
    ((Fields.get? k skv = none ∨ Fields.get? k skv = some .null) →
      Fields.get? k (mergeFields tkv skv) = Fields.get? k tkv) ∧
    (∀ v, Fields.get? k skv = some v → v ≠ .null → Fields.get? k tkv = none →
      Fields.get? k (mergeFields tkv skv) = some v) ∧
    (∀ o v, Fields.get? k skv = some v → v ≠ .null → Fields.get? k tkv = some o →
      Fields.get? k (mergeFields tkv skv) = some (merge o v)) := by
  rw [get?_mergeFields hs]
  refine ⟨?_, fun v hsk hv htk => ?_, fun o v hsk hv htk => ?_⟩
  · rintro (hsk | hsk) <;> simp [hsk, layer, Value.isNull]
  · simp [hsk, htk, layer, hv]
  · simp [hsk, htk, layer, hv]

/-- Layering JSON values. Two objects merge into the object that keeps every key of the target
and adds each key the source maps to something other than `null`: a key keeps the target's
entry where the source has nothing or `null`, takes the source's where the target has none,
and merges the two otherwise. A source that is not an object replaces the target. Layering the
same source twice is layering it once, and a value layered over itself is unchanged. -/
theorem merge_layers {t s : Value} (ht : t.Sorted) (hs : s.Sorted) :
    (∀ tkv skv, t = .obj tkv → s = .obj skv →
      ∃ kvs, merge t s = .obj kvs ∧ Fields.Sorted kvs ∧ ∀ k,
        ((Fields.get? k skv = none ∨ Fields.get? k skv = some .null) →
          Fields.get? k kvs = Fields.get? k tkv) ∧
        (∀ v, Fields.get? k skv = some v → v ≠ .null → Fields.get? k tkv = none →
          Fields.get? k kvs = some v) ∧
        (∀ o v, Fields.get? k skv = some v → v ≠ .null → Fields.get? k tkv = some o →
          Fields.get? k kvs = some (merge o v))) ∧
    ((∀ kvs, s ≠ .obj kvs) → merge t s = s) ∧
    merge (merge t s) s = merge t s ∧
    merge t t = t := by
  refine ⟨?_, merge_of_not_obj t, merge_merge ht hs, merge_self ht⟩
  rintro tkv skv rfl rfl
  exact ⟨mergeFields tkv skv, merge_obj tkv skv, (Fields.Sorted.of_value ht).mergeFields skv,
    get?_mergeFields_cases (Fields.Sorted.of_value hs) tkv⟩

/-- The laws at a target with a nested object and a source that nulls one key and overrides a
nested one. -/
theorem merge_layers_nested :
    let t : Value := .obj [("a", .num (.nat 1)), ("b", .obj [("c", .num (.nat 2)), ("d", .num (.nat 3))])]
    let s : Value := .obj [("a", .null), ("b", .obj [("c", .num (.nat 9))])]
    t.Sorted ∧ s.Sorted ∧
      merge t s = .obj [("a", .num (.nat 1)), ("b", .obj [("c", .num (.nat 9)), ("d", .num (.nat 3))])] ∧
      merge (merge t s) s = merge t s ∧ merge t t = t := by
  intro t s
  have ht : t.Sorted := .obj (by decide) (by
    simp only [List.forall_mem_cons, List.not_mem_nil, IsEmpty.forall_iff, forall_const, and_true]
    exact ⟨.num _, .obj (by decide) (by simp [Value.Sorted.num])⟩)
  have hs : s.Sorted := .obj (by decide) (by
    simp only [List.forall_mem_cons, List.not_mem_nil, IsEmpty.forall_iff, forall_const, and_true]
    exact ⟨.null, .obj (by decide) (by simp [Value.Sorted.num])⟩)
  obtain ⟨-, -, hidem, hself⟩ := merge_layers ht hs
  exact ⟨ht, hs, rfl, hidem, hself⟩

end Coordination.Json
