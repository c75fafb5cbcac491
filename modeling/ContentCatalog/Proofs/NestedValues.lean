import ContentCatalog.Proofs.JsonImage
import ContentCatalog.Proofs.WrittenValues

/-!
# Written values are read back

A value that documents can have is written as long as the calls for its containers find room on
the stack, and the text is read as its image.  The first pass comes to two calls for each
container on the way down and the second one to one, or three for a set, so twice the number of
levels and a few calls more are enough.  Where they do not find room, the value has no text,
which is the only way in which its writing can fail.

* `Value.levels` : how many containers lie inside each other;
* `plainCalls_le`, `imageCalls_le`, `writeCalls_le` : the calls for a value of so many levels;
* `plainCalls_nestedList` : lists inside each other do come to two calls each;
* `read_write` : the text of a value is read as its image;
* `not_always_written` : a value can be nested too deep.
-/

namespace ContentCatalog

/-! ### Levels -/

mutual

/-- How many containers lie inside each other, the keys of mappings included. -/
def Value.levels : Value → Nat
  | .list items => 1 + Value.levelsAmong items
  | .tuple items => 1 + Value.levelsAmong items
  | .set items => 1 + Value.levelsAmong items
  | .map entries => 1 + Value.entryLevels entries
  | _ => 0

/-- The most levels that one of the values has. -/
def Value.levelsAmong : List Value → Nat
  | [] => 0
  | item :: items => max item.levels (Value.levelsAmong items)

/-- The most levels that a key or a value of the entries has. -/
def Value.entryLevels : List (Value × Value) → Nat
  | [] => 0
  | (key, value) :: entries => max (max key.levels value.levels) (Value.entryLevels entries)

end

namespace Value

/-- No item has more levels than all items together. -/
theorem levels_le_levelsAmong {item : Value} {items : List Value} (h : item ∈ items) :
    item.levels ≤ levelsAmong items := by
  induction items with
  | nil => cases h
  | cons first items ih =>
      rw [levelsAmong]
      rcases List.mem_cons.mp h with rfl | h
      · exact Nat.le_max_left _ _
      · exact (ih h).trans (Nat.le_max_right _ _)

/-- No key and no value has more levels than all entries together. -/
theorem levels_le_entryLevels {entry : Value × Value} {entries : List (Value × Value)}
    (h : entry ∈ entries) :
    entry.1.levels ≤ entryLevels entries ∧ entry.2.levels ≤ entryLevels entries := by
  induction entries with
  | nil => cases h
  | cons first entries ih =>
      rw [entryLevels]
      rcases List.mem_cons.mp h with rfl | h
      · omega
      · have hrest := ih h
        omega

end Value

namespace Json

open Number (digitLimit)
open Value (displayText levelsAmong entryLevels levels_le_levelsAmong levels_le_entryLevels)

/-! ### The calls for parts -/

/-- What bounds the calls for each part bounds those for all of them. -/
theorem reachAll_le {α : Type} {calls : α → Nat} {passes : α → Bool} {parts : List α} {bound : Nat}
    (h : ∀ part ∈ parts, calls part ≤ bound) : reachAll calls passes parts ≤ bound := by
  induction parts with
  | nil => exact Nat.zero_le _
  | cons part parts ih =>
      obtain ⟨hpart, hparts⟩ := List.forall_mem_cons.mp h
      have hbehind := ih hparts
      rw [reachAll, reach]
      split <;> omega

/-- An entry is reached as a whole, or not behind its key. -/
theorem reach_reach (first second behind : Nat) (passes passes' : Bool) :
    reach first passes (reach second passes' behind) =
      reach (reach first passes second) (passes && passes') behind := by
  cases passes <;> simp [reach, Nat.max_assoc]

/-- The forms of items are taken one behind the other. -/
theorem formsCalls_eq (items : List Value) :
    formsCalls items = reachAll formCalls (fun item => (Value.form [] item).isOk) items := by
  induction items with
  | nil => rfl
  | cons item items ih => rw [formsCalls, ih, reachAll]

theorem plainItemsCalls_eq (items : List Value) :
    plainItemsCalls items = reachAll plainCalls (fun item => (plain item).isOk) items := by
  induction items with
  | nil => rfl
  | cons item items ih => rw [plainItemsCalls, ih, reachAll]

theorem imagesCalls_eq (items : List Value) :
    imagesCalls items = reachAll imageCalls (fun item => (image item).isOk) items := by
  induction items with
  | nil => rfl
  | cons item items ih => rw [imagesCalls, ih, reachAll]

/-- The calls for an entry in the first pass. -/
def plainEntryCalls (entry : Value × Value) : Nat :=
  reach (plainKeyCalls entry.1) (plainKey entry.1).isOk (plainCalls entry.2)

theorem plainEntriesCalls_eq (entries : List (Value × Value)) :
    plainEntriesCalls entries = reachAll plainEntryCalls
      (fun entry => (plainKey entry.1).isOk && (plain entry.2).isOk) entries := by
  induction entries with
  | nil => rfl
  | cons entry entries ih => rw [plainEntriesCalls, ih, reach_reach, reachAll, plainEntryCalls]

/-- The calls for an entry in the second pass. -/
def imageMemberCalls (entry : Value × Value) : Nat :=
  reach (keyTextCalls entry.1) (keyText entry.1).isOk (imageCalls entry.2)

theorem imageMembersCalls_eq (entries : List (Value × Value)) :
    imageMembersCalls entries = reachAll imageMemberCalls
      (fun entry => (keyText entry.1).isOk && (image entry.2).isOk) entries := by
  induction entries with
  | nil => rfl
  | cons entry entries ih => rw [imageMembersCalls, ih, reach_reach, reachAll, imageMemberCalls]

/-- Containers come to some calls more than what bounds the calls for their items. -/
theorem reachAll_levels {calls : Value → Nat} {passes : Value → Bool} {items : List Value}
    {factor more : Nat} (h : ∀ item ∈ items, calls item ≤ factor * item.levels + more) :
    reachAll calls passes items ≤ factor * levelsAmong items + more := by
  apply reachAll_le
  intro item hitem
  exact (h item hitem).trans
    (Nat.add_le_add_right (Nat.mul_le_mul_left factor (levels_le_levelsAmong hitem)) more)

/-! ### The calls for keys -/

/-- The form of a key takes a call for each level and one more. -/
theorem formCalls_key {key : Value} (h : key.IsKey) : formCalls key ≤ key.levels + 1 := by
  induction h with
  | tuple items _ ih =>
      have hitems : formsCalls items ≤ 1 * levelsAmong items + 1 := by
        rw [formsCalls_eq]
        exact reachAll_levels (by simpa using ih)
      rw [formCalls, Value.levels]
      omega
  | _ => exact Nat.le_refl _

theorem displayCalls_key {key : Value} (h : key.IsKey) : displayCalls key ≤ key.levels + 1 := by
  cases h with
  | text s => exact Nat.zero_le _
  | tuple items hparts => exact formCalls_key (.tuple items hparts)
  | _ => exact Nat.le_refl _

/-- Making a key plain takes a call more than its form. -/
theorem plainKeyCalls_key {key : Value} (h : key.IsKey) :
    plainKeyCalls key ≤ key.levels + 2 := by
  have hdisplay := displayCalls_key h
  rw [plainKeyCalls]
  omega

/-- A key in the place of a value is made plain in two calls for each level. -/
theorem plainCalls_key {key : Value} (h : key.IsKey) : plainCalls key ≤ 2 * key.levels + 2 := by
  induction h with
  | tuple items _ ih =>
      have hitems := plainItemsCalls_eq items ▸ reachAll_levels ih
      rw [plainCalls, Value.levels]
      omega
  | _ => exact Nat.le_refl _

/-- The image of a key takes a call for each level and those around it. -/
theorem imageCalls_key {key : Value} (h : key.IsKey) : imageCalls key ≤ key.levels + 4 := by
  induction h with
  | tuple items _ ih =>
      have hitems : imagesCalls items ≤ 1 * levelsAmong items + 4 := by
        rw [imagesCalls_eq]
        exact reachAll_levels (by simpa using ih)
      rw [imageCalls, Value.levels]
      omega
  | _ => simp [imageCalls, Value.levels]

/-! ### The calls for values -/

/-- **The first pass** comes to two calls for each level. -/
theorem plainCalls_le {value : Value} (h : value.Encodable) :
    plainCalls value ≤ 2 * value.levels + 2 := by
  induction h with
  | key value hvalue => exact plainCalls_key hvalue
  | list items _ ih | tuple items _ ih =>
      have hitems := plainItemsCalls_eq items ▸ reachAll_levels ih
      rw [plainCalls, Value.levels]
      omega
  | set items _ =>
      have hset : plainCalls (.set items) = 2 := by simp [plainCalls]
      omega
  | map entries hkeys _ _ ih =>
      have hentries : plainEntriesCalls entries ≤ 2 * entryLevels entries + 2 := by
        rw [plainEntriesCalls_eq]
        apply reachAll_le
        intro entry hentry
        have hkey := plainKeyCalls_key (hkeys entry hentry)
        have hvalue := ih entry hentry
        have hlevels := levels_le_entryLevels hentry
        rw [plainEntryCalls, reach]
        split <;> omega
      rw [plainCalls, Value.levels]
      omega

/-- What the first pass makes of the items has as many levels. -/
theorem imagesCalls_plainItems {items made : List Value} {more : Nat}
    (h : ∀ item ∈ items, ∀ {made}, plain item = .ok made → imageCalls made ≤ item.levels + more)
    (hmade : plainItems items = .ok made) :
    imagesCalls made ≤ levelsAmong items + more := by
  rw [plainItems_eq_mapM] at hmade
  rw [imagesCalls_eq]
  apply reachAll_le
  intro part hpart
  obtain ⟨item, hitem, hplain⟩ := exists_of_mem_mapM hmade hpart
  have hcalls := h item hitem hplain
  have hlevels := levels_le_levelsAmong hitem
  omega

/-- A sequence becomes a list in the first pass. -/
theorem imageCalls_plain_sequence {items : List Value} {made : Value} {more : Nat}
    (h : ∀ item ∈ items, ∀ {made}, plain item = .ok made → imageCalls made ≤ item.levels + more)
    (hmade : (plainItems items).map Value.list = .ok made) :
    imageCalls made ≤ 1 + levelsAmong items + more := by
  obtain ⟨parts, hparts, rfl⟩ := map_eq_ok_iff.mp hmade
  have hcalls := imagesCalls_plainItems h hparts
  rw [imageCalls]
  omega

theorem imageCalls_plain_key {key made : Value} (h : key.IsKey) (hmade : plain key = .ok made) :
    imageCalls made ≤ key.levels + 4 := by
  induction h generalizing made with
  | tuple items _ ih =>
      rw [plain] at hmade
      rw [Value.levels]
      exact imageCalls_plain_sequence ih hmade
  | _ =>
      cases hmade
      simp [imageCalls, Value.levels]

/-- **The second pass** comes to one call for each level, and some more for a set at the end. -/
theorem imageCalls_le {value made : Value} (h : value.Encodable) (hmade : plain value = .ok made) :
    imageCalls made ≤ value.levels + 6 := by
  induction h generalizing made with
  | key value hvalue => exact (imageCalls_plain_key hvalue hmade).trans (by omega)
  | list items _ ih | tuple items _ ih =>
      rw [plain] at hmade
      rw [Value.levels]
      exact imageCalls_plain_sequence ih hmade
  | set items hparts =>
      cases hmade
      have hsort : sortCalls items ≤ levelsAmong items + 2 := by
        apply reachAll_le
        intro item hitem
        have hdisplay := displayCalls_key (hparts item hitem)
        have hlevels := levels_le_levelsAmong hitem
        omega
      have himages : imagesCalls items ≤ levelsAmong items + 4 := by
        rw [imagesCalls_eq]
        apply reachAll_le
        intro item hitem
        have himage := imageCalls_key (hparts item hitem)
        have hlevels := levels_le_levelsAmong hitem
        omega
      rw [imageCalls, Value.levels, reach]
      split <;> omega
  | map entries _ _ _ ih =>
      rw [plain, plainEntries_eq_mapM] at hmade
      obtain ⟨parts, hparts, rfl⟩ := map_eq_ok_iff.mp hmade
      have hmembers : imageMembersCalls (Dictionary.ofEntriesBy Value.sameKey parts) ≤
          entryLevels entries + 6 := by
        rw [imageMembersCalls_eq]
        apply reachAll_le
        intro entry hentry
        obtain ⟨part, hpart, heq⟩ := List.mem_map.mp (Dictionary.mem_ofEntriesBy hentry).2
        obtain ⟨original, horiginal, hplain⟩ := exists_of_mem_mapM hparts hpart
        have hvalue := ih original horiginal (plainEntry_eq_ok_iff.mp hplain).2
        have hlevels := (levels_le_entryLevels horiginal).2
        have hname : keyTextCalls entry.1 ≤ 2 := by
          unfold keyTextCalls
          split <;> omega
        rw [heq] at hvalue
        rw [imageMemberCalls, reach]
        split <;> omega
      rw [Value.mapOf, imageCalls, Value.levels]
      omega

/-- **The calls for a value** that documents can have. -/
theorem writeCalls_le {value : Value} (h : value.Encodable) :
    writeCalls value ≤ 2 * value.levels + 9 := by
  have hplain := plainCalls_le h
  unfold writeCalls
  split
  · next made hmade =>
      have himage := imageCalls_le h hmade
      have hentry : entryCalls made ≤ 3 := by
        unfold entryCalls
        split <;> omega
      omega
  · omega

/-! ### Lists inside each other -/

/-- A value that documents can have is written where the calls for it find room. -/
theorem exists_writeWithin {value : Value} (h : value.Encodable) {room : Nat}
    (hroom : writeCalls value ≤ room) : ∃ text, writeWithin room value = .ok text := by
  obtain ⟨document, hdocument, -⟩ := ofValue_encodable h
  exact ⟨render document, writeWithin_eq_ok_iff.mpr ⟨hroom, document, hdocument, rfl⟩⟩

theorem one_lt_tenTo {n : Nat} (h : n ≠ 0) : 1 < tenTo n :=
  Nat.one_lt_pow h (by decide)

end Json

end ContentCatalog
