import Mathlib.Data.List.Nodup

/-!
# Insertion-ordered maps

A finite map that remembers the order in which its keys were first set, as the `Map` of
ECMAScript does: setting a key that is present overwrites its value in place, setting a
new one appends it. The absence of duplicate keys is a field of the structure, so lookups
need no well-formedness side condition.
-/

/-- An association list without duplicate keys, oldest key first. -/
structure OrdMap (κ ν : Type) where
  entries : List (κ × ν)
  nodup : (entries.map Prod.fst).Nodup

namespace OrdMap

variable {κ ν : Type}

/-- The map without keys. -/
def empty : OrdMap κ ν where
  entries := []
  nodup := List.nodup_nil

/-- The keys, oldest first. -/
def keys (m : OrdMap κ ν) : List κ := m.entries.map Prod.fst

/-- The number of keys. -/
def size (m : OrdMap κ ν) : Nat := m.entries.length

/-- Keep the entries that satisfy a test, in their order. -/
def filter (m : OrdMap κ ν) (keep : κ → ν → Bool) : OrdMap κ ν where
  entries := m.entries.filter fun e => keep e.1 e.2
  nodup := (List.filter_sublist.map _).nodup m.nodup

variable [DecidableEq κ]

/-- The value of a key, if it has one. -/
def get? (m : OrdMap κ ν) (k : κ) : Option ν :=
  (m.entries.find? fun e => e.1 = k).map Prod.snd

/-- Overwrite the value of `k` wherever it stands. -/
def overwrite (k : κ) (v : ν) (es : List (κ × ν)) : List (κ × ν) :=
  es.map fun e => if e.1 = k then (k, v) else e

theorem overwrite_keys (k : κ) (v : ν) (es : List (κ × ν)) :
    (overwrite k v es).map Prod.fst = es.map Prod.fst := by
  induction es with
  | nil => rfl
  | cons e rest ih =>
      simp only [overwrite, List.map_cons] at ih ⊢
      rw [ih]
      by_cases same : e.1 = k
      · simp [same]
      · simp [same]

/-- Set a key: in place when it is present, at the end otherwise. -/
def set (m : OrdMap κ ν) (k : κ) (v : ν) : OrdMap κ ν :=
  if present : k ∈ m.entries.map Prod.fst then
    { entries := overwrite k v m.entries
      nodup := by rw [overwrite_keys]; exact m.nodup }
  else
    { entries := m.entries ++ [(k, v)]
      nodup := by
        rw [List.map_append, List.nodup_append]
        refine ⟨m.nodup, List.nodup_singleton _, ?_⟩
        intro a ha b hb eq
        simp only [List.map_cons, List.map_nil, List.mem_singleton] at hb
        exact present (hb ▸ eq ▸ ha) }

/-- Remove a key. -/
def delete (m : OrdMap κ ν) (k : κ) : OrdMap κ ν :=
  m.filter fun k' _ => k' ≠ k

@[simp] theorem overwrite_length (k : κ) (v : ν) (es : List (κ × ν)) :
    (overwrite k v es).length = es.length := List.length_map _

/-! ## Lookups -/

@[simp] theorem get?_empty (k : κ) : (empty : OrdMap κ ν).get? k = none := rfl

theorem find?_overwrite (k : κ) (v : ν) (es : List (κ × ν)) (q : κ) :
    ((overwrite k v es).find? fun e => e.1 = q).map Prod.snd =
      if q = k ∧ k ∈ es.map Prod.fst then some v
      else (es.find? fun e => e.1 = q).map Prod.snd := by
  induction es with
  | nil => simp [overwrite]
  | cons e rest ih =>
      simp only [overwrite, List.map_cons] at ih ⊢
      by_cases atKey : e.1 = k
      · by_cases same : q = k
        · simp [atKey, same]
        · have other : ¬ k = q := fun eq => same eq.symm
          simp only [atKey, if_true, List.find?_cons, other, same,
            decide_false, false_and, if_false]
          rw [ih]
          simp [same]
      · by_cases hit : e.1 = q
        · have apart : ¬ q = k := fun eq => atKey (hit.trans eq)
          simp [hit, apart]
        · have apart : ¬ k = e.1 := fun eq => atKey eq.symm
          simp only [atKey, if_false, List.find?_cons, hit, decide_false, List.mem_cons, apart,
            false_or]
          exact ih

theorem find?_absent {es : List (κ × ν)} {k : κ} (absent : k ∉ es.map Prod.fst) :
    (es.find? fun e => e.1 = k) = none := by
  rw [List.find?_eq_none]
  intro e mem eq
  exact absent (List.mem_map.2 ⟨e, mem, of_decide_eq_true eq⟩)

theorem get?_set (m : OrdMap κ ν) (k : κ) (v : ν) (q : κ) :
    (m.set k v).get? q = if q = k then some v else m.get? q := by
  unfold set get?
  by_cases present : k ∈ m.entries.map Prod.fst
  · rw [dif_pos present]
    simp [find?_overwrite, present]
  · rw [dif_neg present]
    simp only [List.find?_append]
    by_cases same : q = k
    · subst same
      simp [find?_absent present]
    · have other : ¬ k = q := fun eq => same eq.symm
      simp [same, other]

@[simp] theorem get?_set_self (m : OrdMap κ ν) (k : κ) (v : ν) :
    (m.set k v).get? k = some v := by
  rw [get?_set, if_pos rfl]

theorem get?_set_of_ne (m : OrdMap κ ν) {k q : κ} (v : ν) (ne : q ≠ k) :
    (m.set k v).get? q = m.get? q := by
  rw [get?_set, if_neg ne]

/-- A lookup through `filter` tests the value found: a key has one entry only. -/
theorem get?_filter (m : OrdMap κ ν) (keep : κ → ν → Bool) (q : κ) :
    (m.filter keep).get? q = (m.get? q).filter (keep q) := by
  obtain ⟨es, nodup⟩ := m
  simp only [filter, get?]
  induction es with
  | nil => rfl
  | cons e rest ih =>
      rw [List.map_cons, List.nodup_cons] at nodup
      have tail := ih nodup.2
      by_cases hit : e.1 = q
      · subst hit
        by_cases kept : keep e.1 e.2
        · simp [kept, Option.filter]
        · have gone : e.1 ∉ (rest.filter fun e => keep e.1 e.2).map Prod.fst :=
            fun mem => nodup.1 ((List.filter_sublist.map _).subset mem)
          simp [kept, find?_absent gone, Option.filter]
      · by_cases kept : keep e.1 e.2
        · simp only [List.filter_cons, kept, if_true, List.find?_cons, hit, decide_false]
          exact tail
        · simp only [List.filter_cons, kept, List.find?_cons, hit, decide_false]
          exact tail

theorem get?_delete (m : OrdMap κ ν) (k q : κ) :
    (m.delete k).get? q = if q = k then none else m.get? q := by
  rw [delete, get?_filter]
  by_cases same : q = k
  · simp [same]
  · cases m.get? q <;> simp [same, Option.filter]

@[simp] theorem get?_delete_self (m : OrdMap κ ν) (k : κ) : (m.delete k).get? k = none := by
  rw [get?_delete, if_pos rfl]

theorem get?_delete_of_ne (m : OrdMap κ ν) {k q : κ} (ne : q ≠ k) :
    (m.delete k).get? q = m.get? q := by
  rw [get?_delete, if_neg ne]

/-- After deleting several keys. -/
theorem get?_foldl_delete (m : OrdMap κ ν) (ks : List κ) (q : κ) :
    (ks.foldl delete m).get? q = if q ∈ ks then none else m.get? q := by
  induction ks generalizing m with
  | nil => simp
  | cons k ks ih =>
      rw [List.foldl_cons, ih, get?_delete]
      by_cases later : q ∈ ks
      · simp [later]
      · by_cases same : q = k
        · simp [same]
        · simp [later, same]

/-- An entry of the list is what the lookup returns for its key. -/
theorem get?_of_mem (m : OrdMap κ ν) {k : κ} {v : ν} (mem : (k, v) ∈ m.entries) :
    m.get? k = some v := by
  obtain ⟨es, nodup⟩ := m
  simp only [get?] at mem ⊢
  induction es with
  | nil => simp at mem
  | cons e rest ih =>
      rw [List.map_cons, List.nodup_cons] at nodup
      rcases List.mem_cons.1 mem with here | there
      · subst here
        simp
      · have apart : ¬ e.1 = k := by
          intro eq
          exact nodup.1 (eq ▸ List.mem_map.2 ⟨(k, v), there, rfl⟩)
        simp only [List.find?_cons, apart, decide_false]
        exact ih nodup.2 there

theorem mem_of_get? (m : OrdMap κ ν) {k : κ} {v : ν} (found : m.get? k = some v) :
    (k, v) ∈ m.entries := by
  unfold get? at found
  cases lookup : m.entries.find? (fun e => e.1 = k) with
  | none => simp [lookup] at found
  | some e =>
      have mem := List.mem_of_find?_eq_some lookup
      have key : e.1 = k := by simpa using List.find?_some lookup
      simp only [lookup, Option.map_some, Option.some.injEq] at found
      rw [← key, ← found]
      exact mem

theorem mem_keys_iff (m : OrdMap κ ν) (k : κ) : k ∈ m.keys ↔ (m.get? k).isSome := by
  rw [keys, List.mem_map]
  constructor
  · rintro ⟨e, mem, rfl⟩
    rw [m.get?_of_mem mem]
    rfl
  · intro some?
    obtain ⟨v, found⟩ := Option.isSome_iff_exists.1 some?
    exact ⟨(k, v), m.mem_of_get? found, rfl⟩

/-! ## Sizes -/

/-- A new key makes the map larger, a present one does not. -/
theorem size_set (m : OrdMap κ ν) (k : κ) (v : ν) :
    (m.set k v).size = if (m.get? k).isSome then m.size else m.size + 1 := by
  have key := m.mem_keys_iff k
  unfold set
  by_cases present : k ∈ m.entries.map Prod.fst
  · rw [dif_pos present, if_pos (key.1 present)]
    exact overwrite_length k v m.entries
  · rw [dif_neg present, if_neg fun some_ => present (key.2 some_)]
    simp [size]

/-- The oldest key stays the oldest. -/
theorem head?_keys_set {m : OrdMap κ ν} {oldest : κ} (first : m.keys.head? = some oldest) (k : κ)
    (v : ν) : (m.set k v).keys.head? = some oldest := by
  unfold set
  by_cases present : k ∈ m.entries.map Prod.fst
  · rw [dif_pos present]
    show (overwrite k v m.entries |>.map Prod.fst).head? = some oldest
    rw [overwrite_keys]
    exact first
  · rw [dif_neg present]
    show ((m.entries ++ [(k, v)]).map Prod.fst).head? = some oldest
    rw [List.map_append, List.head?_append_of_ne_nil]
    · exact first
    · intro none_
      rw [keys, none_] at first
      cases first

/-- A map that is made from entries with different keys has just these. -/
theorem entries_foldl_set (es : List (κ × ν)) (m : OrdMap κ ν)
    (apart : (m.entries ++ es).Pairwise fun e e' => e.1 ≠ e'.1) :
    (es.foldl (fun m e => m.set e.1 e.2) m).entries = m.entries ++ es := by
  induction es generalizing m with
  | nil => exact (List.append_nil _).symm
  | cons e es ih =>
      have absent : e.1 ∉ m.entries.map Prod.fst := by
        intro mem
        obtain ⟨old, entry, same⟩ := List.mem_map.1 mem
        exact (List.pairwise_append.1 apart).2.2 old entry e List.mem_cons_self same
      have set_ : (m.set e.1 e.2).entries = m.entries ++ [e] := by
        unfold set
        rw [dif_neg absent]
      rw [List.foldl_cons, ih, set_, List.append_assoc]
      · rfl
      · rw [set_, List.append_assoc]
        exact apart

end OrdMap
