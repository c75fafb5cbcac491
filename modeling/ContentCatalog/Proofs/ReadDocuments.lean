import ContentCatalog.Proofs.DecimalDigits
import ContentCatalog.Proofs.MergedKeys
import ContentCatalog.Proofs.ScanStages

/-!
# Documents that were read

The reader of JSON takes no whole number with too many digits.  So every part of a
document that was read can be shown in a message again, and none of its numbers stands
in the way of a report.

* `short_of_readInteger` : a whole number that was read is short;
* `short_of_readers` : the parts that the readers hand on are short, by induction on
  their fuel;
* `short_of_read` : documents that were read are short.
-/

namespace ContentCatalog

namespace Number

/-- Decimal digits have no mark in front. -/
theorem baseMark_ten (text : List Char) : baseMark 10 text = text := by
  unfold baseMark
  split <;> simp

/-- The digits at the front of a text of digits are all of it. -/
theorem length_takeWhile_of_allDigits? {text : List Char} {values : List Nat}
    (h : allDigits? 10 text = some values) :
    (text.takeWhile fun c => (digitIn? 10 c).isSome).length = values.length := by
  induction text generalizing values with
  | nil =>
      rw [← Option.some.inj h]
      rfl
  | cons c text ih =>
      obtain ⟨d, others, rfl, hd, hothers⟩ := allDigits?_cons h
      rw [List.takeWhile_cons_of_pos (by rw [hd]; rfl), List.length_cons, List.length_cons,
        ih hothers]

/-- A number of so many digits is below the limit. -/
theorem pow_le_tenTo {count limit : Nat} (h : count ≤ limit) : 10 ^ count ≤ tenTo limit :=
  Nat.pow_le_pow_right (by decide) h

/-- **A whole number that was read** can be written again. -/
theorem short_of_readInteger {text : List Char} {i : Int} (h : readInteger 10 text = .ok i) :
    i.natAbs < tenTo digitLimit := by
  rw [readInteger] at h
  simp only [baseMark_ten] at h
  split at h
  · cases h
  · next hlimit =>
      split at h
      · next digit digits hdigits =>
          have hrun := length_takeWhile_of_allDigits? hdigits
          have hshort : (digit :: digits).length ≤ digitLimit := by
            rw [← hrun]
            exact Nat.not_lt.mp fun hlong => hlimit ⟨trivial, hlong⟩
          have hsize : wholeOfDigits 10 (digit :: digits) < tenTo digitLimit :=
            (wholeOfDigits_lt (allDigits?_lt hdigits)).trans_le (pow_le_tenTo hshort)
          rw [← Except.ok.inj h]
          generalize tenTo digitLimit = limit at hsize ⊢
          split <;> omega
      · cases h

end Number

namespace Json

open Number (digitLimit)

/-- The whole numbers of the document have few enough digits to be written. -/
inductive Short : Json → Prop
  | null : Short .null
  | bool (b : Bool) : Short (.bool b)
  | int (i : Int) (short : i.natAbs < tenTo digitLimit) : Short (.int i)
  | float (x : Double) : Short (.float x)
  | text (s : String) : Short (.text s)
  | array (items : List Json) (parts : ∀ item ∈ items, Short item) : Short (.array items)
  | object (members : List (String × Json)) (parts : ∀ member ∈ members, Short member.2) :
      Short (.object members)

/-- Of members with short values a short object is made. -/
theorem short_objectOf {members : List (String × Json)} (h : ∀ member ∈ members, Short member.2) :
    Short (objectOf members) := by
  refine .object _ ?_
  intro member hmember
  obtain ⟨other, hother, heq⟩ := List.mem_map.mp (Dictionary.mem_ofEntriesBy hmember).2
  rw [← heq]
  exact h other hother

/-- A number that is read from a document is short enough to be shown. -/
theorem short_of_number {input rest : List Char} {value : Json}
    (h : number input = .ok (value, rest)) : Short value := by
  unfold number at h
  simp only at h
  split at h
  · cases h
  · split at h
    · split at h
      · next hread =>
          rw [← (Prod.mk.inj (Except.ok.inj h)).1]
          exact .int _ (Number.short_of_readInteger hread)
      · cases h
    · split at h
      · rw [← (Prod.mk.inj (Except.ok.inj h)).1]
        exact .float _
      · cases h

/-- So is every scalar. -/
theorem short_of_scalar {input rest : List Char} {value : Json}
    (h : scalar input = .ok (value, rest)) : Short value := by
  have hwords : ∀ word ∈ words, Short word.2 := by
    simp only [words, List.forall_mem_cons]
    exact ⟨.null, .bool _, .bool _, .float _, .float _, .float _, List.forall_mem_nil _⟩
  rw [scalar] at h
  split at h
  · next found hfound =>
      obtain ⟨word, hword, hstart⟩ := List.exists_of_findSome?_eq_some hfound
      obtain ⟨behind, -, heq⟩ := Option.map_eq_some_iff.mp hstart
      rw [← heq] at h
      rw [← (Prod.mk.inj (Except.ok.inj h)).1]
      exact hwords word hword
  · exact short_of_number h

/-- **The parts that the readers hand on are short.** -/
theorem short_of_readers (fuel : Nat) :
    (∀ {input rest value}, document fuel input = .ok (value, rest) → Short value) ∧
      (∀ {input rest items}, arrayItems fuel input = .ok (items, rest) →
        ∀ item ∈ items, Short item) ∧
      ∀ {input rest members}, objectMembers fuel input = .ok (members, rest) →
        ∀ member ∈ members, Short member.2 := by
  induction fuel with
  | zero =>
      refine ⟨?_, ?_, ?_⟩
      · intro input rest value h
        rw [document] at h
        cases h
      · intro input rest items h
        rw [arrayItems] at h
        cases h
      · intro input rest members h
        rw [objectMembers] at h
        cases h
  | succ fuel ih =>
      obtain ⟨hdocument, hitems, hmembers⟩ := ih
      refine ⟨?_, ?_, ?_⟩
      · intro input rest value h
        cases input with
        | nil =>
            rw [document] at h
            cases h
        | cons c input =>
            rw [document] at h
            split at h
            · obtain ⟨⟨text, behind⟩, -, h⟩ := bind_eq_ok_iff.mp h
              cases h
              exact .text _
            · split at h
              · split at h
                · cases h
                  exact .object [] (List.forall_mem_nil _)
                · obtain ⟨⟨members, behind⟩, hread, h⟩ := bind_eq_ok_iff.mp h
                  cases h
                  exact short_objectOf (hmembers hread)
              · split at h
                · split at h
                  · cases h
                    exact .array [] (List.forall_mem_nil _)
                  · obtain ⟨⟨items, behind⟩, hread, h⟩ := bind_eq_ok_iff.mp h
                    cases h
                    exact .array _ (hitems hread)
                · exact short_of_scalar h
      · intro input rest items h
        rw [arrayItems] at h
        obtain ⟨⟨item, behind⟩, hread, h⟩ := bind_eq_ok_iff.mp h
        simp only at h
        split at h
        · cases h
          exact List.forall_mem_singleton.mpr (hdocument hread)
        · obtain ⟨⟨others, after⟩, hothers, h⟩ := bind_eq_ok_iff.mp h
          cases h
          exact List.forall_mem_cons.mpr ⟨hdocument hread, hitems hothers⟩
        · cases h
      · intro input rest members h
        unfold objectMembers at h
        split at h
        · obtain ⟨⟨name, behind⟩, -, h⟩ := bind_eq_ok_iff.mp h
          simp only at h
          split at h
          · obtain ⟨⟨value, after⟩, hread, h⟩ := bind_eq_ok_iff.mp h
            simp only at h
            split at h
            · cases h
              exact List.forall_mem_singleton.mpr (hdocument hread)
            · obtain ⟨⟨others, last⟩, hothers, h⟩ := bind_eq_ok_iff.mp h
              cases h
              exact List.forall_mem_cons.mpr ⟨hdocument hread, hmembers hothers⟩
            · cases h
          · cases h
        · cases h

/-- **Documents that were read are short.** -/
theorem short_of_read {input : List Char} {j : Json} (h : read input = .ok j) : Short j := by
  rw [read] at h
  split at h
  · next hwhole =>
      cases h
      unfold wholeDocument at hwhole
      split at hwhole
      · cases hwhole
      · obtain ⟨⟨value, rest⟩, hread, hwhole⟩ := bind_eq_ok_iff.mp hwhole
        simp only at hwhole
        split at hwhole
        · cases hwhole
          exact (short_of_readers _).1 hread
        · cases hwhole
  · cases h
  · cases h

end Json

end ContentCatalog
