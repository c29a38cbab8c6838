/-!
# Tables

A table holds values under pairwise different keys and remembers the order in which the keys came
in. Changing the value of a key keeps its place; a new key goes to the end.

`get?_alter_self` and `get?_alter_of_ne` say what a change does to every look-up, `get?_mapKeys` and
`exists_mapValues?` what becomes of the look-ups when all keys or all values change.
-/

namespace LittleMan

/-- Values under pairwise different keys. -/
structure Table (κ ν : Type) where
  /-- The keys and their values, in the order in which the keys came in. -/
  entries : List (κ × ν) := []
  /-- No key occurs twice. -/
  nodup : (entries.map Prod.fst).Nodup := by simp

namespace Table

variable {κ ν μ : Type}

/-- The table without keys. -/
def empty : Table κ ν := {}

instance : EmptyCollection (Table κ ν) := ⟨empty⟩

instance : Inhabited (Table κ ν) := ⟨empty⟩

/-- How many keys there are. -/
def size (t : Table κ ν) : Nat := t.entries.length

/-- The keys, in the order in which they came in. -/
def keys (t : Table κ ν) : List κ := t.entries.map Prod.fst

/-- The values, in the order of their keys. -/
def values (t : Table κ ν) : List ν := t.entries.map Prod.snd

section Lookup

variable [DecidableEq κ]

/-- The value under a key. -/
def get? (t : Table κ ν) (k : κ) : Option ν := t.entries.lookup k

/-- The entries after the value under `k` has become `f` of what it was. -/
def alterEntries (k : κ) (f : Option ν → ν) : List (κ × ν) → List (κ × ν)
  | [] => [(k, f none)]
  | (k', v) :: rest => if k' = k then (k', f (some v)) :: rest else (k', v) :: alterEntries k f rest

theorem keys_alterEntries (k : κ) (f : Option ν → ν) (entries : List (κ × ν)) :
    (alterEntries k f entries).map Prod.fst =
      if k ∈ entries.map Prod.fst then entries.map Prod.fst else entries.map Prod.fst ++ [k] := by
  induction entries with
  | nil => simp [alterEntries]
  | cons e rest ih =>
    obtain ⟨k', v⟩ := e
    by_cases h : k' = k
    · simp [alterEntries, h]
    · simp only [alterEntries, h, if_false, List.map_cons, ih, List.mem_cons, Ne.symm h, false_or]
      split <;> simp

/-- The table after the value under `k` has become `f` of what it was. -/
def alter (t : Table κ ν) (k : κ) (f : Option ν → ν) : Table κ ν where
  entries := alterEntries k f t.entries
  nodup := by
    rw [keys_alterEntries]
    split
    · exact t.nodup
    · rename_i h
      exact List.nodup_append.2 ⟨t.nodup, by simp, by rintro a ha b hb rfl; simp_all⟩

/-- The table after `v` has been put under `k`, in place of what was there. -/
def put (t : Table κ ν) (k : κ) (v : ν) : Table κ ν := t.alter k fun _ => v

/-- The table of a list of entries; of two with the same key the later counts. -/
def ofList (entries : List (κ × ν)) : Table κ ν := entries.foldl (fun t (k, v) => t.put k v) empty

@[simp] theorem get?_empty (k : κ) : (empty : Table κ ν).get? k = none := rfl

theorem lookup_alterEntries (k l : κ) (f : Option ν → ν) (entries : List (κ × ν)) :
    (alterEntries k f entries).lookup l =
      if l = k then some (f (entries.lookup k)) else entries.lookup l := by
  have beq (a b : κ) : (a == b) = decide (a = b) := rfl
  induction entries with
  | nil => by_cases h : l = k <;> simp [alterEntries, List.lookup_cons, beq, h]
  | cons e rest ih =>
    obtain ⟨k', v⟩ := e
    by_cases hk : k' = k
    · subst hk
      by_cases h : l = k' <;> simp [alterEntries, List.lookup_cons, beq, h]
    · by_cases h : l = k
      · subst h
        simp [alterEntries, List.lookup_cons, beq, hk, Ne.symm hk, ih]
      · by_cases hl : l = k' <;> simp [alterEntries, List.lookup_cons, beq, hk, hl, h, ih]

@[simp] theorem get?_alter_self (t : Table κ ν) (k : κ) (f : Option ν → ν) :
    (t.alter k f).get? k = some (f (t.get? k)) := by
  simp [get?, alter, lookup_alterEntries]

theorem get?_alter_of_ne (t : Table κ ν) {k l : κ} (h : l ≠ k) (f : Option ν → ν) :
    (t.alter k f).get? l = t.get? l := by
  simp [get?, alter, lookup_alterEntries, h]

@[simp] theorem get?_put_self (t : Table κ ν) (k : κ) (v : ν) : (t.put k v).get? k = some v :=
  get?_alter_self t k _

theorem get?_put_of_ne (t : Table κ ν) {k l : κ} (h : l ≠ k) (v : ν) :
    (t.put k v).get? l = t.get? l :=
  get?_alter_of_ne t h _

end Lookup

/-- The table with the keys renamed, different keys to different names. -/
def mapKeys {κ' : Type} (t : Table κ ν) (f : κ → κ') (inj : ∀ a b, f a = f b → a = b) :
    Table κ' ν where
  entries := t.entries.map fun (k, v) => (f k, v)
  nodup := by
    have h := t.nodup
    simp only [List.Nodup, List.map_map, List.pairwise_map] at h ⊢
    exact h.imp fun hab heq => hab (inj _ _ heq)

/-- The entries with `f` applied to every value, if it succeeds on all of them. -/
def mapEntries? (f : ν → Option μ) : List (κ × ν) → Option (List (κ × μ))
  | [] => some []
  | (k, v) :: rest => do
    let w ← f v
    let ws ← mapEntries? f rest
    return (k, w) :: ws

theorem keys_mapEntries? {f : ν → Option μ} {entries : List (κ × ν)} {mapped : List (κ × μ)}
    (h : mapEntries? f entries = some mapped) :
    mapped.map Prod.fst = entries.map Prod.fst := by
  induction entries generalizing mapped with
  | nil => simp_all [mapEntries?]
  | cons e rest ih =>
    obtain ⟨k, v⟩ := e
    simp only [mapEntries?, Option.bind_eq_bind, Option.bind_eq_some_iff, Option.pure_def,
      Option.some.injEq] at h
    obtain ⟨w, -, ws, hws, rfl⟩ := h
    simp [ih hws]

/-- The table with `f` applied to every value, if it succeeds on all of them. -/
def mapValues? (t : Table κ ν) (f : ν → Option μ) : Option (Table κ μ) :=
  match h : mapEntries? f t.entries with
  | none => none
  | some entries => some ⟨entries, by rw [keys_mapEntries? h]; exact t.nodup⟩

section Lookup

variable [DecidableEq κ]

theorem get?_eq_some_iff (t : Table κ ν) {k : κ} {v : ν} :
    t.get? k = some v ↔ (k, v) ∈ t.entries := by
  obtain ⟨entries, hnodup⟩ := t
  change entries.lookup k = some v ↔ (k, v) ∈ entries
  induction entries with
  | nil => simp
  | cons e rest ih =>
    obtain ⟨k', v'⟩ := e
    obtain ⟨hnew, hrest⟩ := List.nodup_cons.mp hnodup
    rw [List.lookup_cons, List.mem_cons, ← ih hrest]
    by_cases hk : k = k'
    · subst hk
      have hnone : rest.lookup k ≠ some v := fun h =>
        hnew (List.mem_map.mpr ⟨(k, v), (ih hrest).mp h, rfl⟩)
      simp [hnone, eq_comm]
    · have hne : (k == k') = false := beq_eq_false_iff_ne.mpr hk
      simp [hk, hne]

theorem mem_keys_iff (t : Table κ ν) {k : κ} : k ∈ t.keys ↔ (t.get? k).isSome := by
  rw [Option.isSome_iff_exists, keys, List.mem_map]
  constructor
  · rintro ⟨⟨_, v⟩, hmem, rfl⟩
    exact ⟨v, t.get?_eq_some_iff.mpr hmem⟩
  · rintro ⟨v, hv⟩
    exact ⟨(k, v), t.get?_eq_some_iff.mp hv, rfl⟩

/-- A renamed key has the value it had. -/
theorem get?_mapKeys {κ' : Type} [DecidableEq κ'] (t : Table κ ν) (f : κ → κ')
    (inj : ∀ a b, f a = f b → a = b) (k : κ) : (t.mapKeys f inj).get? (f k) = t.get? k := by
  refine Option.ext fun v => ?_
  rw [get?_eq_some_iff, get?_eq_some_iff, mapKeys, List.mem_map]
  constructor
  · rintro ⟨⟨k', v'⟩, hmem, heq⟩
    obtain ⟨hkey, rfl⟩ := Prod.mk.inj heq
    exact inj k' k hkey ▸ hmem
  · exact fun hmem => ⟨(k, v), hmem, rfl⟩

omit [DecidableEq κ] in
/-- There is nothing under what is no name of a key. -/
theorem get?_mapKeys_of_forall_ne {κ' : Type} [DecidableEq κ'] (t : Table κ ν) (f : κ → κ')
    (inj : ∀ a b, f a = f b → a = b) {k' : κ'} (h : ∀ k, f k ≠ k') :
    (t.mapKeys f inj).get? k' = none := by
  refine Option.eq_none_iff_forall_ne_some.mpr fun v hv => ?_
  rw [get?_eq_some_iff, mapKeys, List.mem_map] at hv
  obtain ⟨⟨k, v'⟩, -, heq⟩ := hv
  exact h k (Prod.mk.inj heq).1

theorem exists_mapEntries? {f : ν → Option μ} {entries : List (κ × ν)}
    (h : ∀ e ∈ entries, (f e.2).isSome) : ∃ mapped, mapEntries? f entries = some mapped ∧
      ∀ k, mapped.lookup k = (entries.lookup k).bind f := by
  induction entries with
  | nil => exact ⟨[], rfl, fun _ => rfl⟩
  | cons e rest ih =>
    obtain ⟨k', v⟩ := e
    obtain ⟨mapped, hmapped, hlookup⟩ := ih fun e he => h e (List.mem_cons_of_mem _ he)
    obtain ⟨w, hw⟩ := Option.isSome_iff_exists.mp (h (k', v) List.mem_cons_self)
    refine ⟨(k', w) :: mapped, by simp [mapEntries?, hw, hmapped], fun k => ?_⟩
    rw [List.lookup_cons, List.lookup_cons, hlookup]
    cases k == k' with
    | true => exact hw.symm
    | false => rfl

/-- Where `f` succeeds on all values, it is applied to all of them. -/
theorem exists_mapValues? (t : Table κ ν) (f : ν → Option μ)
    (h : ∀ e ∈ t.entries, (f e.2).isSome) : ∃ mapped, t.mapValues? f = some mapped ∧
      ∀ k, mapped.get? k = (t.get? k).bind f := by
  obtain ⟨mapped, hmapped, hlookup⟩ := exists_mapEntries? h
  unfold mapValues?
  split
  · next hnone => cases hmapped.symm.trans hnone
  · next entries hentries =>
    obtain rfl := Option.some.inj (hmapped.symm.trans hentries)
    exact ⟨_, rfl, hlookup⟩

end Lookup

end Table

end LittleMan
