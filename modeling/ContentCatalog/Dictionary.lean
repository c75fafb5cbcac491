/-!
# Insertion-ordered dictionaries

A dictionary is the list of its entries in the order in which their keys first
came.  Writing a key that is there replaces the value in its place; a new key
goes to the end.  Keys are compared by a test that is passed in, since the keys
of documents are equal across kinds.

* `keys_put_of_mem`, `keys_put_of_not_mem` : what a write does to the keys;
* `lookup?_put_self`, `lookup?_put_other` : what a read after a write gives;
* `lookup?_of_mem` : an entry is found under its key if no key is held twice;
* `nodup_keys_put`, `nodup_keys_ofEntries` : no key is held twice.
-/

namespace ContentCatalog.Dictionary

/-- Write a value under a key. -/
def putBy {κ ν : Type} (same : κ → κ → Bool) (key : κ) (value : ν) :
    List (κ × ν) → List (κ × ν)
  | [] => [(key, value)]
  | (k, v) :: rest => if same k key then (k, value) :: rest else (k, v) :: putBy same key value rest

/-- The dictionary that results from writing the entries one after the other. -/
def ofEntriesBy {κ ν : Type} (same : κ → κ → Bool) (entries : List (κ × ν)) : List (κ × ν) :=
  entries.foldl (fun dictionary entry => putBy same entry.1 entry.2 dictionary) []

variable {κ ν : Type} [DecidableEq κ]

/-- Write a value under a key, keys compared by equality. -/
def put (key : κ) (value : ν) (entries : List (κ × ν)) : List (κ × ν) :=
  putBy (fun k l => k == l) key value entries

/-- The dictionary of the entries, keys compared by equality. -/
def ofEntries (entries : List (κ × ν)) : List (κ × ν) :=
  ofEntriesBy (fun k l => k == l) entries

/-- The value under a key. -/
def lookup? (key : κ) (entries : List (κ × ν)) : Option ν :=
  (entries.find? fun entry => entry.1 == key).map (·.2)

/-- The keys in their order. -/
def keys (entries : List (κ × ν)) : List κ :=
  entries.map (·.1)

/-- An empty dictionary gets its first entry. -/
theorem put_nil (key : κ) (value : ν) : put key value [] = [(key, value)] := rfl

/-- Writing replaces the value at the first entry of the key, or goes on behind it. -/
theorem put_cons (key : κ) (value : ν) (k : κ) (v : ν) (rest : List (κ × ν)) :
    put key value ((k, v) :: rest)
      = if k = key then (k, value) :: rest else (k, v) :: put key value rest := by
  simp [put, putBy]

/-- A key that is there already keeps all keys as they are. -/
theorem keys_put_of_mem {key : κ} {value : ν} {entries : List (κ × ν)}
    (h : key ∈ keys entries) : keys (put key value entries) = keys entries := by
  induction entries with
  | nil => simp [keys] at h
  | cons entry rest ih =>
    obtain ⟨k, v⟩ := entry
    rw [put_cons]
    split
    · rfl
    · next hk =>
      have : key ∈ keys rest := by
        simp only [keys, List.map_cons, List.mem_cons] at h
        rcases h with h | h
        · exact absurd h.symm hk
        · exact h
      simpa [keys] using ih this

/-- A new key comes last. -/
theorem keys_put_of_not_mem {key : κ} {value : ν} {entries : List (κ × ν)}
    (h : key ∉ keys entries) : put key value entries = entries ++ [(key, value)] := by
  induction entries with
  | nil => rfl
  | cons entry rest ih =>
    obtain ⟨k, v⟩ := entry
    simp only [keys, List.map_cons, List.mem_cons, not_or] at h
    rw [put_cons, if_neg (Ne.symm h.1), List.cons_append, ih h.2]

/-- The keys behind a writing are those before it and the key that was written. -/
theorem mem_keys_put {key k : κ} {value : ν} {entries : List (κ × ν)} :
    k ∈ keys (put key value entries) ↔ k = key ∨ k ∈ keys entries := by
  by_cases h : key ∈ keys entries
  · rw [keys_put_of_mem h]
    constructor
    · exact Or.inr
    · rintro (rfl | h')
      · exact h
      · exact h'
  · rw [keys_put_of_not_mem h]
    simp [keys, or_comm]

/-- Writing gives no key twice. -/
theorem nodup_keys_put {key : κ} {value : ν} {entries : List (κ × ν)}
    (h : (keys entries).Nodup) : (keys (put key value entries)).Nodup := by
  by_cases hk : key ∈ keys entries
  · rwa [keys_put_of_mem hk]
  · rw [keys_put_of_not_mem hk]
    simp only [keys, List.map_append, List.map_cons, List.map_nil]
    rw [List.nodup_append]
    refine ⟨h, by simp, ?_⟩
    intro a ha b hb
    simp only [List.mem_singleton] at hb
    rintro rfl
    exact hk (hb ▸ ha)

/-- So a dictionary made of entries has each key once. -/
theorem nodup_keys_ofEntries (entries : List (κ × ν)) : (keys (ofEntries entries)).Nodup := by
  have step : ∀ (entries start : List (κ × ν)), (keys start).Nodup →
      (keys (entries.foldl (fun dictionary entry =>
        putBy (fun k l => k == l) entry.1 entry.2 dictionary) start)).Nodup := by
    intro entries
    induction entries with
    | nil => exact fun _ h => h
    | cons entry rest ih => exact fun start h => ih _ (nodup_keys_put h)
  exact step entries [] (by simp [keys])

/-- A value is found under the key that it was written to. -/
theorem lookup?_put_self (key : κ) (value : ν) (entries : List (κ × ν)) :
    lookup? key (put key value entries) = some value := by
  induction entries with
  | nil => simp [put_nil, lookup?]
  | cons entry rest ih =>
    obtain ⟨k, v⟩ := entry
    rw [put_cons]
    by_cases hk : k = key
    · simp [lookup?, hk]
    · simpa [lookup?, hk] using ih

/-- Of two values under one key the last one stays. -/
theorem put_put (key : κ) (value old : ν) (entries : List (κ × ν)) :
    put key value (put key old entries) = put key value entries := by
  induction entries with
  | nil => simp [put_nil, put_cons]
  | cons entry rest ih =>
    obtain ⟨k, v⟩ := entry
    rw [put_cons, put_cons]
    by_cases hk : k = key
    · simp [hk, put_cons]
    · simp [hk, put_cons, ih]

/-- Under all other keys the same is found as before. -/
theorem lookup?_put_other {key other : κ} (h : other ≠ key) (value : ν) (entries : List (κ × ν)) :
    lookup? other (put key value entries) = lookup? other entries := by
  induction entries with
  | nil => simp [put_nil, lookup?, Ne.symm h]
  | cons entry rest ih =>
    obtain ⟨k, v⟩ := entry
    rw [put_cons]
    by_cases hk : k = key
    · subst hk; simp [lookup?, Ne.symm h]
    · rw [if_neg hk]
      by_cases ho : k = other
      · simp [lookup?, ho]
      · simpa [lookup?, ho] using ih

/-- Of several entries of a key the first one is found. -/
theorem lookup?_cons (name key : κ) (value : ν) (entries : List (κ × ν)) :
    lookup? name ((key, value) :: entries) =
      if key = name then some value else lookup? name entries := by
  by_cases h : key = name <;> simp [lookup?, h]

/-- What is found is an entry. -/
theorem mem_of_lookup? {key : κ} {value : ν} {entries : List (κ × ν)}
    (h : lookup? key entries = some value) : (key, value) ∈ entries := by
  obtain ⟨entry, hfind, hsecond⟩ := Option.map_eq_some_iff.mp h
  have hfirst : entry.1 = key := by simpa using List.find?_some hfind
  rw [← hfirst, ← hsecond]
  exact List.mem_of_find?_eq_some hfind

/-- Where no key comes twice, an entry is the one that is found under its key. -/
theorem lookup?_of_mem {key : κ} {value : ν} {entries : List (κ × ν)}
    (hnodup : (keys entries).Nodup) (h : (key, value) ∈ entries) :
    lookup? key entries = some value := by
  induction entries with
  | nil => cases h
  | cons entry entries ih =>
      rw [keys, List.map_cons, List.nodup_cons] at hnodup
      obtain ⟨other, first⟩ := entry
      rw [lookup?_cons]
      rcases List.mem_cons.mp h with heq | hmem
      · obtain ⟨rfl, rfl⟩ := Prod.mk.inj heq
        rw [if_pos rfl]
      · have hne : other ≠ key := fun heq =>
          hnodup.1 (List.mem_map.mpr ⟨(key, value), hmem, heq.symm⟩)
        rw [if_neg hne, ih hnodup.2 hmem]

end ContentCatalog.Dictionary
