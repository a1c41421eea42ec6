/-! Finite tables that keep their keys in the order of first insertion. -/

namespace BackedToken

structure Table (κ ν : Type) where
  entries : List (κ × ν)
  nodup : (entries.map Prod.fst).Nodup

namespace Table

variable {κ ν : Type} [DecidableEq κ]

def empty : Table κ ν := ⟨[], List.nodup_nil⟩

def size (t : Table κ ν) : Nat := t.entries.length

def isEmpty (t : Table κ ν) : Bool := t.entries.isEmpty

def find (key : κ) : List (κ × ν) → Option ν
  | [] => none
  | (k, v) :: rest => if k = key then some v else find key rest

def get? (t : Table κ ν) (key : κ) : Option ν := find key t.entries

def put (key : κ) (value : ν) : List (κ × ν) → List (κ × ν)
  | [] => [(key, value)]
  | (k, v) :: rest => if k = key then (k, value) :: rest else (k, v) :: put key value rest

theorem map_fst_put (key : κ) (value : ν) (entries : List (κ × ν)) :
    (put key value entries).map Prod.fst =
      if key ∈ entries.map Prod.fst then entries.map Prod.fst else entries.map Prod.fst ++ [key] := by
  induction entries with
  | nil => simp [put]
  | cons e rest ih =>
    obtain ⟨k, v⟩ := e
    by_cases h : k = key
    · simp [put, h]
    · have hk : ¬key = k := fun e => h e.symm
      simp only [put, h, if_false, List.map_cons, ih, List.mem_cons, hk, false_or]
      split <;> simp

theorem nodup_put {key : κ} {value : ν} {entries : List (κ × ν)} (h : (entries.map Prod.fst).Nodup) :
    ((put key value entries).map Prod.fst).Nodup := by
  rw [map_fst_put]
  split
  · exact h
  · next hk =>
    rw [List.nodup_append]
    refine ⟨h, by simp, ?_⟩
    intro a ha b hb
    rw [List.mem_singleton.mp hb]
    rintro rfl
    exact hk ha

def insert (t : Table κ ν) (key : κ) (value : ν) : Table κ ν := ⟨put key value t.entries, nodup_put t.nodup⟩

def erase (t : Table κ ν) (key : κ) : Table κ ν where
  entries := t.entries.filter fun e => e.1 ≠ key
  nodup := List.Nodup.sublist (List.Sublist.map _ List.filter_sublist) t.nodup

theorem find_put (key other : κ) (value : ν) (entries : List (κ × ν)) :
    find other (put key value entries) = if key = other then some value else find other entries := by
  induction entries with
  | nil => simp [put, find]
  | cons e rest ih =>
    obtain ⟨k, v⟩ := e
    by_cases h : k = key
    · subst h
      by_cases ho : k = other <;> simp [put, find, ho]
    · by_cases ho : k = other
      · subst ho
        have hk : ¬key = k := fun e => h e.symm
        simp [put, find, h, hk]
      · simp [put, find, h, ho, ih]

theorem find_filter (key other : κ) (entries : List (κ × ν)) :
    find other (entries.filter fun e => e.1 ≠ key) = if key = other then none else find other entries := by
  induction entries with
  | nil => simp [find]
  | cons e rest ih =>
    obtain ⟨k, v⟩ := e
    by_cases h : k = key
    · subst h
      by_cases ho : k = other <;> simp_all [find]
    · by_cases ho : k = other
      · subst ho
        have hk : ¬key = k := fun e => h e.symm
        simp [find, h, hk]
      · simp_all [find]

theorem find_eq_none_iff (key : κ) (entries : List (κ × ν)) :
    find key entries = none ↔ key ∉ entries.map Prod.fst := by
  induction entries with
  | nil => simp [find]
  | cons e rest ih =>
    obtain ⟨k, v⟩ := e
    by_cases hk : k = key
    · simp [find, hk]
    · have hk' : ¬key = k := fun e => hk e.symm
      rw [find, if_neg hk, ih, List.map_cons, List.mem_cons, not_or]
      exact ⟨fun h => ⟨hk', h⟩, And.right⟩

theorem find_eq_some_iff {entries : List (κ × ν)} (h : (entries.map Prod.fst).Nodup) (key : κ) (value : ν) :
    find key entries = some value ↔ (key, value) ∈ entries := by
  induction entries with
  | nil => simp [find]
  | cons e rest ih =>
    obtain ⟨k, v⟩ := e
    rw [List.map_cons, List.nodup_cons] at h
    by_cases hk : k = key
    · subst hk
      have hrest : (k, value) ∉ rest := fun hm => h.1 (List.mem_map.mpr ⟨_, hm, rfl⟩)
      simp [find, hrest, eq_comm]
    · have hk' : ¬key = k := fun e => hk e.symm
      simp [find, hk, hk', ih h.2]

theorem find_of_perm {entries others : List (κ × ν)} (h : (entries.map Prod.fst).Nodup) (hp : entries.Perm others)
    (key : κ) : find key entries = find key others := by
  have ho : (others.map Prod.fst).Nodup := (hp.map Prod.fst).nodup_iff.mp h
  apply Option.ext
  intro value
  rw [find_eq_some_iff h, find_eq_some_iff ho, hp.mem_iff]

@[simp] theorem get?_empty (key : κ) : (empty : Table κ ν).get? key = none := rfl

theorem get?_insert (t : Table κ ν) (key other : κ) (value : ν) :
    (t.insert key value).get? other = if key = other then some value else t.get? other :=
  find_put key other value t.entries

theorem get?_erase (t : Table κ ν) (key other : κ) :
    (t.erase key).get? other = if key = other then none else t.get? other :=
  find_filter key other t.entries

theorem get?_eq_some_iff (t : Table κ ν) (key : κ) (value : ν) :
    t.get? key = some value ↔ (key, value) ∈ t.entries :=
  find_eq_some_iff t.nodup key value

end Table

end BackedToken
