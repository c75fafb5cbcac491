import ContentCatalog.Dictionary
import Mathlib.Data.List.Induction
import Mathlib.Data.List.Nodup
import Mathlib.Data.List.Perm.Subperm

/-!
# Merging twice

A dictionary is built by a comparison of keys, and then its keys are given names and the
entries of one name are merged.  If keys that the comparison confuses are one key, and
no other key has the name of such a key, then the first merging could be left out.

* `ofEntriesBy_concat` : a dictionary with one entry more;
* `putBy_cases` : what a write does;
* `mem_putBy`, `mem_ofEntriesBy` : what a dictionary consists of;
* `pairwise_ofEntriesBy`, `ofEntriesBy_of_pairwise` : no two keys of a dictionary are the
  same, and entries with different keys are a dictionary already;
* `KeyByKey` : entries with the same keys and related values, which merge in the same way;
* `keys_ofEntries`, `lookup?_ofEntries` : each key keeps its first place and has its last
  value;
* `length_ofEntries_eq_iff` : nothing is merged exactly if no key comes twice;
* `filter_ofEntries`, `map_ofEntries` : entries may be chosen by their keys, or the keys be
  named in another way, before the merging or after it;
* `put_append_cons` : a write under a key that is held replaces the value in its place;
* `ofEntries_ofEntriesBy` : the statement about both mergings.
-/

namespace ContentCatalog.Dictionary

variable {κ ν μ σ : Type}

section Comparison

variable {same : κ → κ → Bool}

/-- The last entry is written last. -/
theorem ofEntriesBy_concat (same : κ → κ → Bool) (entries : List (κ × ν)) (key : κ) (value : ν) :
    ofEntriesBy same (entries ++ [(key, value)]) =
      putBy same key value (ofEntriesBy same entries) :=
  List.foldl_append

/-- A write adds an entry at the end, or replaces the value of the first entry of which
the key is the same. -/
theorem putBy_cases (same : κ → κ → Bool) (key : κ) (value : ν) (entries : List (κ × ν)) :
    ((∀ entry ∈ entries, same entry.1 key = false) ∧
        putBy same key value entries = entries ++ [(key, value)]) ∨
      ∃ front held old back, entries = front ++ (held, old) :: back ∧ same held key = true ∧
        putBy same key value entries = front ++ (held, value) :: back := by
  induction entries with
  | nil => exact .inl ⟨fun _ h => absurd h List.not_mem_nil, rfl⟩
  | cons entry entries ih =>
      obtain ⟨k, v⟩ := entry
      by_cases hsame : same k key = true
      · refine .inr ⟨[], k, v, entries, rfl, hsame, ?_⟩
        rw [putBy, if_pos hsame]
        rfl
      · have hput : putBy same key value ((k, v) :: entries) =
            (k, v) :: putBy same key value entries := by
          rw [putBy, if_neg hsame]
        rcases ih with ⟨hnone, heq⟩ | ⟨front, held, old, back, hentries, hheld, heq⟩
        · refine .inl ⟨?_, by rw [hput, heq, List.cons_append]⟩
          intro entry hmem
          rcases List.mem_cons.mp hmem with rfl | hmem
          · exact Bool.eq_false_iff.mpr hsame
          · exact hnone entry hmem
        · exact .inr ⟨(k, v) :: front, held, old, back, by rw [hentries, List.cons_append], hheld,
            by rw [hput, heq, List.cons_append]⟩

/-- A write brings in no parts but its own; a key and its value may be of two entries. -/
theorem mem_putBy {key : κ} {value : ν} {entries : List (κ × ν)} {entry : κ × ν}
    (h : entry ∈ putBy same key value entries) :
    (entry.1 = key ∨ entry.1 ∈ keys entries) ∧
      (entry.2 = value ∨ entry.2 ∈ entries.map (·.2)) := by
  have hkept : ∀ entry ∈ entries, entry.1 ∈ keys entries ∧ entry.2 ∈ entries.map (·.2) :=
    fun entry hmem => ⟨List.mem_map_of_mem hmem, List.mem_map_of_mem hmem⟩
  rcases putBy_cases same key value entries with
    ⟨-, heq⟩ | ⟨front, held, old, back, hentries, -, heq⟩
  · rw [heq] at h
    rcases List.mem_append.mp h with hmem | hmem
    · exact ⟨.inr (hkept entry hmem).1, .inr (hkept entry hmem).2⟩
    · rw [List.mem_singleton.mp hmem]
      exact ⟨.inl rfl, .inl rfl⟩
  · have hheld : (held, old) ∈ entries := by
      rw [hentries]
      exact List.mem_append_right _ List.mem_cons_self
    rw [heq] at h
    rcases List.mem_append.mp h with hmem | hmem
    · have hold : entry ∈ entries := hentries ▸ List.mem_append_left _ hmem
      exact ⟨.inr (hkept entry hold).1, .inr (hkept entry hold).2⟩
    · rcases List.mem_cons.mp hmem with rfl | hmem
      · exact ⟨.inr (hkept _ hheld).1, .inl rfl⟩
      · have hold : entry ∈ entries :=
          hentries ▸ List.mem_append_right _ (List.mem_cons_of_mem _ hmem)
        exact ⟨.inr (hkept entry hold).1, .inr (hkept entry hold).2⟩

/-- The parts of a dictionary are those of its entries. -/
theorem mem_ofEntriesBy {entries : List (κ × ν)} {entry : κ × ν}
    (h : entry ∈ ofEntriesBy same entries) :
    entry.1 ∈ keys entries ∧ entry.2 ∈ entries.map (·.2) := by
  induction entries using List.reverseRecOn generalizing entry with
  | nil => exact absurd h List.not_mem_nil
  | append_singleton entries last ih =>
      have hold : ∀ other ∈ ofEntriesBy same entries,
          other.1 ∈ keys (entries ++ [last]) ∧ other.2 ∈ (entries ++ [last]).map (·.2) := by
        intro other hother
        rw [keys, List.map_append, List.map_append]
        exact ⟨List.mem_append_left _ (ih hother).1, List.mem_append_left _ (ih hother).2⟩
      rw [ofEntriesBy_concat] at h
      obtain ⟨hkey, hvalue⟩ := mem_putBy h
      constructor
      · rcases hkey with hnew | hmem
        · rw [hnew]
          simp [keys]
        · obtain ⟨other, hother, heq⟩ := List.mem_map.mp hmem
          exact heq ▸ (hold other hother).1
      · rcases hvalue with hnew | hmem
        · rw [hnew]
          simp
        · obtain ⟨other, hother, heq⟩ := List.mem_map.mp hmem
          exact heq ▸ (hold other hother).2

/-- A write leaves no key the same as one behind it. -/
theorem pairwise_putBy {entries : List (κ × ν)} (key : κ) (value : ν)
    (h : (keys entries).Pairwise fun a b => same a b = false) :
    (keys (putBy same key value entries)).Pairwise fun a b => same a b = false := by
  rcases putBy_cases same key value entries with
    ⟨hnone, heq⟩ | ⟨front, held, old, back, hentries, -, heq⟩
  · rw [heq, keys, List.map_append, List.pairwise_append]
    refine ⟨h, List.pairwise_singleton _ _, ?_⟩
    intro a ha b hb
    obtain ⟨entry, hentry, rfl⟩ := List.mem_map.mp ha
    rw [List.mem_singleton.mp hb]
    exact hnone entry hentry
  · rw [hentries] at h
    rw [heq]
    simpa [keys] using h

/-- No key of a dictionary is the same as one behind it. -/
theorem pairwise_ofEntriesBy (same : κ → κ → Bool) (entries : List (κ × ν)) :
    (keys (ofEntriesBy same entries)).Pairwise fun a b => same a b = false := by
  induction entries using List.reverseRecOn with
  | nil => exact .nil
  | append_singleton entries entry ih =>
      rw [ofEntriesBy_concat]
      exact pairwise_putBy entry.1 entry.2 ih

/-- Entries with different keys are a dictionary already. -/
theorem ofEntriesBy_of_pairwise {entries : List (κ × ν)}
    (h : (keys entries).Pairwise fun a b => same a b = false) :
    ofEntriesBy same entries = entries := by
  induction entries using List.reverseRecOn with
  | nil => rfl
  | append_singleton entries entry ih =>
      obtain ⟨k, v⟩ := entry
      rw [keys, List.map_append, List.pairwise_append] at h
      obtain ⟨hfront, -, hlast⟩ := h
      rw [ofEntriesBy_concat, ih hfront]
      rcases putBy_cases same k v entries with ⟨-, heq⟩ | ⟨front, held, old, back, hentries, hheld, -⟩
      · exact heq
      · have hdiffer := hlast held (by simp [hentries]) k (by simp)
        rw [hheld] at hdiffer
        cases hdiffer

/-- The entries have the same keys in the same order, and what stands under a key is related. -/
def KeyByKey (R : ν → μ → Prop) (entries : List (κ × ν)) (others : List (κ × μ)) : Prop :=
  List.Forall₂ (fun entry other => entry.1 = other.1 ∧ R entry.2 other.2) entries others

variable {R : ν → μ → Prop} {entries : List (κ × ν)} {others : List (κ × μ)}

/-- Entries that are related key by key have equal keys in one order, and related values. -/
theorem keyByKey_iff : KeyByKey R entries others ↔
    keys others = keys entries ∧ List.Forall₂ (fun entry other => R entry.2 other.2) entries
      others := by
  constructor
  · intro h
    refine ⟨?_, h.imp fun _ _ hand => hand.2⟩
    induction h with
    | nil => rfl
    | cons hfirst _ ih =>
        rw [keys, List.map_cons, ← hfirst.1]
        exact congrArg _ ih
  · intro h
    obtain ⟨hkeys, hvalues⟩ := h
    induction hvalues with
    | nil => exact .nil
    | cons hvalue _ ih =>
        rw [keys, keys, List.map_cons, List.map_cons] at hkeys
        obtain ⟨hkey, hkeys⟩ := List.cons.inj hkeys
        exact .cons ⟨hkey.symm, hvalue⟩ (ih hkeys)

/-- They stay so when related values are written under one key. -/
theorem KeyByKey.putBy (h : KeyByKey R entries others) (key : κ) {value : ν} {other : μ}
    (hvalue : R value other) :
    KeyByKey R (putBy same key value entries) (putBy same key other others) := by
  induction h with
  | nil => exact .cons ⟨rfl, hvalue⟩ .nil
  | @cons first second entries others hfirst hrest ih =>
      obtain ⟨held, old⟩ := first
      obtain ⟨_, older⟩ := second
      obtain ⟨rfl, hold⟩ := hfirst
      rw [Dictionary.putBy, Dictionary.putBy]
      split
      · exact .cons ⟨rfl, hvalue⟩ hrest
      · exact .cons ⟨rfl, hold⟩ ih

/-- **Related entries merge in the same way**: which of them are kept is a matter of the keys. -/
theorem KeyByKey.ofEntriesBy (same : κ → κ → Bool) (h : KeyByKey R entries others) :
    KeyByKey R (ofEntriesBy same entries) (ofEntriesBy same others) := by
  have hall : ∀ {built : List (κ × ν)} {made : List (κ × μ)}, KeyByKey R built made →
      KeyByKey R (entries.foldl (fun dictionary entry => Dictionary.putBy same entry.1 entry.2
        dictionary) built) (others.foldl (fun dictionary entry => Dictionary.putBy same entry.1
        entry.2 dictionary) made) := by
    induction h with
    | nil => exact fun hbuilt => hbuilt
    | cons hfirst _ ih =>
        intro built made hbuilt
        rw [List.foldl_cons, List.foldl_cons, ← hfirst.1]
        exact ih (hbuilt.putBy _ hfirst.2)
  exact hall .nil

end Comparison

/-! ### Names -/

variable [DecidableEq σ]

/-- The last entry is written last, keys compared by equality. -/
theorem ofEntries_concat (entries : List (σ × μ)) (name : σ) (value : μ) :
    ofEntries (entries ++ [(name, value)]) = put name value (ofEntries entries) :=
  ofEntriesBy_concat _ _ _ _

/-- An entry behind a writing was there before or is the one that was written. -/
theorem mem_put {key : σ} {value : μ} {entries : List (σ × μ)} {entry : σ × μ}
    (h : entry ∈ put key value entries) : entry = (key, value) ∨ entry ∈ entries := by
  induction entries with
  | nil => exact .inl (List.mem_singleton.mp h)
  | cons first entries ih =>
      obtain ⟨k, v⟩ := first
      rw [put_cons] at h
      split at h
      · next hk =>
          rcases List.mem_cons.mp h with rfl | h
          · exact .inl (by rw [hk])
          · exact .inr (List.mem_cons_of_mem _ h)
      · rcases List.mem_cons.mp h with rfl | h
        · exact .inr List.mem_cons_self
        · exact (ih h).imp_right (List.mem_cons_of_mem _)

/-- A dictionary holds nothing but the entries that were written. -/
theorem mem_ofEntries {entries : List (σ × μ)} {entry : σ × μ} (h : entry ∈ ofEntries entries) :
    entry ∈ entries := by
  induction entries using List.reverseRecOn with
  | nil => exact h
  | append_singleton entries last ih =>
      rw [ofEntries_concat] at h
      rcases mem_put h with rfl | h
      · exact List.mem_append_right _ List.mem_cons_self
      · exact List.mem_append_left _ (ih h)

/-- Entries with different keys are a dictionary already. -/
theorem ofEntries_of_nodup {entries : List (σ × μ)} (h : (keys entries).Nodup) :
    ofEntries entries = entries :=
  ofEntriesBy_of_pairwise (h.imp fun hne => beq_false_of_ne hne)

/-- No key is lost. -/
theorem mem_keys_ofEntries {name : σ} {entries : List (σ × μ)} :
    name ∈ keys (ofEntries entries) ↔ name ∈ keys entries := by
  induction entries using List.reverseRecOn with
  | nil => rfl
  | append_singleton entries entry ih =>
      rw [ofEntries_concat, mem_keys_put, ih]
      simp [keys, or_comm]

/-- **The keys stand where they came first.** -/
theorem keys_ofEntries (entries : List (σ × μ)) :
    keys (ofEntries entries) = (keys entries).eraseDups := by
  induction entries using List.reverseRecOn with
  | nil => rfl
  | append_singleton entries entry ih =>
      obtain ⟨name, value⟩ := entry
      have hkeys : ∀ entries : List (σ × μ),
          keys (entries ++ [(name, value)]) = keys entries ++ [name] := fun _ => List.map_append
      rw [ofEntries_concat, hkeys, List.eraseDups_append, ← ih]
      by_cases hmem : name ∈ keys entries
      · rw [keys_put_of_mem (mem_keys_ofEntries.mpr hmem)]
        simp [List.removeAll, hmem]
      · rw [keys_put_of_not_mem (mt mem_keys_ofEntries.mp hmem), hkeys]
        simp [List.removeAll, hmem, List.eraseDups_cons]

/-- **The last value under a key counts.** -/
theorem lookup?_ofEntries (name : σ) (entries : List (σ × μ)) :
    lookup? name (ofEntries entries) = lookup? name entries.reverse := by
  induction entries using List.reverseRecOn with
  | nil => rfl
  | append_singleton entries entry ih =>
      obtain ⟨key, value⟩ := entry
      rw [ofEntries_concat, List.reverse_append]
      by_cases hkey : key = name
      · rw [hkey, lookup?_put_self]
        simp [lookup?]
      · rw [lookup?_put_other (Ne.symm hkey), ih]
        simp [lookup?, hkey]

/-- A key that is held in front is not looked for behind. -/
theorem lookup?_append_of_mem {name : σ} {front : List (σ × μ)} (h : name ∈ keys front)
    (back : List (σ × μ)) : lookup? name (front ++ back) = lookup? name front := by
  obtain ⟨entry, hentry, hkey⟩ := List.mem_map.mp h
  have hfound : (front.find? fun entry => entry.1 == name).isSome :=
    List.find?_isSome.mpr ⟨entry, hentry, by simp [hkey]⟩
  rw [lookup?, lookup?, List.find?_append, Option.or_of_isSome hfound]

/-- Nothing is merged exactly if no key comes twice. -/
theorem length_ofEntries_eq_iff {entries : List (σ × μ)} :
    (ofEntries entries).length = entries.length ↔ (keys entries).Nodup := by
  refine ⟨fun hlength => ?_, fun h => by rw [ofEntries_of_nodup h]⟩
  have hnodup := nodup_keys_ofEntries entries
  have hsub : (keys (ofEntries entries)).Subperm (keys entries) :=
    List.subperm_of_subset hnodup fun name h => mem_keys_ofEntries.mp h
  have hperm := hsub.perm_of_length_le (by simp [keys, hlength])
  exact hperm.nodup_iff.mp hnodup

/-- What is kept of a dictionary after a write. -/
theorem filter_put (p : σ → Bool) (name : σ) (value : μ) (entries : List (σ × μ)) :
    (put name value entries).filter (fun entry => p entry.1) =
      if p name then put name value (entries.filter fun entry => p entry.1)
      else entries.filter fun entry => p entry.1 := by
  induction entries with
  | nil => cases hp : p name <;> simp [put_nil, hp]
  | cons entry entries ih =>
      obtain ⟨k, v⟩ := entry
      rw [put_cons]
      by_cases hk : k = name
      · subst hk
        cases hp : p k <;> simp [put_cons, hp]
      · rw [if_neg hk, List.filter_cons, List.filter_cons, ih]
        cases hp : p name <;> cases hpk : p k <;> simp [put_cons, hk]

/-- Entries can be chosen by their keys before they are merged. -/
theorem filter_ofEntries (p : σ → Bool) (entries : List (σ × μ)) :
    (ofEntries entries).filter (fun entry => p entry.1) =
      ofEntries (entries.filter fun entry => p entry.1) := by
  induction entries using List.reverseRecOn with
  | nil => rfl
  | append_singleton entries entry ih =>
      obtain ⟨name, value⟩ := entry
      rw [ofEntries_concat, filter_put, ih, List.filter_append]
      by_cases hp : p name = true
      · simp [hp, ofEntries_concat]
      · simp [hp]

/-- The second of two writes under one key counts. -/
theorem put_put_self (name : σ) (value old : μ) (entries : List (σ × μ)) :
    put name value (put name old entries) = put name value entries := by
  induction entries with
  | nil => simp [put_nil, put_cons]
  | cons entry entries ih =>
      obtain ⟨k, v⟩ := entry
      by_cases hk : k = name
      · simp [put_cons, hk]
      · simp [put_cons, hk, ih]

/-- A write under a key that is held may come before a write under another key. -/
theorem put_comm_of_mem {name other : σ} {value v : μ} {entries : List (σ × μ)}
    (h : name ∈ keys entries) (hne : other ≠ name) :
    put name value (put other v entries) = put other v (put name value entries) := by
  induction entries with
  | nil => exact absurd h List.not_mem_nil
  | cons entry entries ih =>
      obtain ⟨k, w⟩ := entry
      by_cases hk : k = name
      · subst hk
        simp [put_cons, Ne.symm hne]
      · have hmem : name ∈ keys entries := by
          rcases List.mem_cons.mp h with heq | hmem
          · exact absurd heq.symm hk
          · exact hmem
        by_cases ho : k = other
        · simp [put_cons, ho, hne]
        · simp [put_cons, hk, ho, ih hmem]

/-- **A write under a key that is held** replaces the value of the last entry under this
key. -/
theorem put_append_cons {name : σ} (front : List (σ × μ)) (old value : μ) {back : List (σ × μ)}
    (h : name ∉ keys back) :
    put name value (ofEntries (front ++ (name, old) :: back)) =
      ofEntries (front ++ (name, value) :: back) := by
  induction back using List.reverseRecOn with
  | nil => rw [ofEntries_concat, ofEntries_concat, put_put_self]
  | append_singleton back entry ih =>
      obtain ⟨other, v⟩ := entry
      have hback : name ∉ keys back ∧ other ≠ name := by
        simpa [keys, eq_comm] using h
      have hmem : name ∈ keys (ofEntries (front ++ (name, old) :: back)) := by
        rw [mem_keys_ofEntries]
        simp [keys]
      rw [← List.cons_append, ← List.append_assoc, ofEntries_concat,
        put_comm_of_mem hmem hback.2, ih hback.1, ← List.cons_append, ← List.append_assoc,
        ofEntries_concat]

/-! ### Both mergings -/

/-- Two keys that are the same are one key, and no other key has its name. -/
def Unmistaken (same : κ → κ → Bool) (name : κ → σ) (keys : List κ) : Prop :=
  keys.Pairwise fun a b => same a b = true → a = b ∧ ∀ c ∈ keys, name c = name a → c = a

/-- **The first merging can be left out.** -/
theorem ofEntries_ofEntriesBy {same : κ → κ → Bool} {name : κ → σ} (image : ν → μ)
    {entries : List (κ × ν)} (h : Unmistaken same name (keys entries)) :
    ofEntries ((ofEntriesBy same entries).map fun entry => (name entry.1, image entry.2)) =
      ofEntries (entries.map fun entry => (name entry.1, image entry.2)) := by
  induction entries using List.reverseRecOn with
  | nil => rfl
  | append_singleton entries entry ih =>
      obtain ⟨key, value⟩ := entry
      rw [Unmistaken, keys, List.map_append, List.pairwise_append] at h
      obtain ⟨hfront, -, hlast⟩ := h
      have hmerged := ih (hfront.imp fun hab hsame =>
        ⟨(hab hsame).1, fun c hc => (hab hsame).2 c (List.mem_append_left _ hc)⟩)
      rw [ofEntriesBy_concat, List.map_append, List.map_singleton, ofEntries_concat, ← hmerged]
      rcases putBy_cases same key value (ofEntriesBy same entries) with
        ⟨-, heq⟩ | ⟨front, held, old, back, hentries, hsame, heq⟩
      · rw [heq, List.map_append, List.map_singleton, ofEntries_concat]
      · have hheld : (held, old) ∈ ofEntriesBy same entries := by
          rw [hentries]
          exact List.mem_append_right _ List.mem_cons_self
        obtain ⟨hone, hname⟩ := hlast held (mem_ofEntriesBy hheld).1 key (List.mem_singleton_self _)
          hsame
        subst hone
        -- Another entry of this name would have the same key, which is held only once.
        have hback : name held ∉ keys (back.map fun entry => (name entry.1, image entry.2)) := by
          intro hmem
          simp only [keys, List.map_map, List.mem_map, Function.comp] at hmem
          obtain ⟨other, hother, hnames⟩ := hmem
          have hmem : other ∈ ofEntriesBy same entries := by
            rw [hentries]
            exact List.mem_append_right _ (List.mem_cons_of_mem _ hother)
          have hequal : other.1 = held :=
            hname other.1 (List.mem_append_left _ (mem_ofEntriesBy hmem).1) hnames
          have hpair := pairwise_ofEntriesBy same entries
          rw [hentries, keys, List.map_append, List.map_cons, List.pairwise_append,
            List.pairwise_cons] at hpair
          have hfalse := hpair.2.1.1 other.1 (List.mem_map_of_mem hother)
          rw [hequal, hsame] at hfalse
          cases hfalse
        rw [heq, hentries, List.map_append, List.map_cons, List.map_append, List.map_cons,
          put_append_cons _ _ _ hback]

/-- **Other names for the keys**, one for each, can be given before entries are merged. -/
theorem map_ofEntries [DecidableEq κ] {name : κ → σ} (hname : Function.Injective name)
    (image : ν → μ) (entries : List (κ × ν)) :
    (ofEntries entries).map (fun entry => (name entry.1, image entry.2)) =
      ofEntries (entries.map fun entry => (name entry.1, image entry.2)) := by
  have hsame : Unmistaken (fun k l : κ => k == l) name (keys entries) := by
    refine List.pairwise_of_forall fun a b heq => ⟨eq_of_beq heq, fun c _ h => hname h⟩
  have hnodup : (keys ((ofEntries entries).map fun entry =>
      (name entry.1, image entry.2))).Nodup := by
    rw [keys, List.map_map]
    have hkeys := List.Nodup.map hname (nodup_keys_ofEntries entries)
    rwa [keys, List.map_map] at hkeys
  rw [← ofEntries_ofEntriesBy image hsame]
  exact (ofEntries_of_nodup hnodup).symm

end ContentCatalog.Dictionary
