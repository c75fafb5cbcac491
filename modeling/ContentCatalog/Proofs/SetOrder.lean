import ContentCatalog.Proofs.ListedSets

/-!
# The order of sets

A set lists its elements in some order, and what is written has them in the order of their
displays.  Elements with one display stay as they were listed, so the text is the same for every
listing exactly if such elements are written alike.  Texts and dates are: a date is written as it
is displayed.  A text and another scalar that is displayed like it are not.

* `imageOf_set_eq`, `arranged_ne` : when two listings of a set have one image;
* `imaged_unique`, `imaged_within` : from a value to its sets, and back;
* `set_order` : the statement about the values of texts.
-/

namespace ContentCatalog

namespace Json

open Value (IsLeaf Loaded Reordered Within displayText sameKey)

variable {R S : List Value → List Value → Prop}

/-! ### Two listings of a set -/

/-- A text and another scalar that is displayed like it, but not written like it, as a date is. -/
def Ambiguous (items : List Value) : Prop :=
  ∃ s other, Value.text s ∈ items ∧ other ∈ items ∧ (∀ t, other ≠ .text t) ∧
    (∀ d, other ≠ .date d) ∧ other.display = .ok s

/-- The elements in the order in which they are written. -/
def sorted (items : List Value) : List Value :=
  items.mergeSort fun a b => decide (a.displayText ≤ b.displayText)

/-- Sorting changes nothing but the order. -/
theorem sorted_perm (items : List Value) : (sorted items).Perm items :=
  List.mergeSort_perm _ _

/-- Elements in another order are the same when they are sorted. -/
theorem sorted_perm_sorted {items others : List Value} (h : items.Perm others) :
    (sorted items).Perm (sorted others) :=
  (sorted_perm items).trans (h.trans (sorted_perm others).symm)

/-- The order of displays is transitive. -/
theorem displayText_trans (a b c : Value)
    (hab : decide (a.displayText ≤ b.displayText) = true)
    (hbc : decide (b.displayText ≤ c.displayText) = true) :
    decide (a.displayText ≤ c.displayText) = true :=
  decide_eq_true (String.le_trans (of_decide_eq_true hab) (of_decide_eq_true hbc))

theorem displayText_total (a b : Value) :
    (decide (a.displayText ≤ b.displayText) || decide (b.displayText ≤ a.displayText)) = true := by
  rw [Bool.or_eq_true, decide_eq_true_eq, decide_eq_true_eq]
  exact String.le_total _ _

/-- Sorted elements are in the order of their displays. -/
theorem pairwise_sorted (items : List Value) :
    (sorted items).Pairwise fun a b => a.displayText ≤ b.displayText :=
  (List.pairwise_mergeSort displayText_trans displayText_total items).imp of_decide_eq_true

/-- **Elements with one display** stay as they were listed. -/
theorem filter_sorted (s : String) (items : List Value) :
    (sorted items).filter (fun item => item.displayText == s) =
      items.filter fun item => item.displayText == s := by
  have hdisplay : ∀ item ∈ items.filter fun item => item.displayText == s,
      item.displayText = s := fun item hitem => eq_of_beq (List.mem_filter.mp hitem).2
  have htied : (items.filter fun item => item.displayText == s).Pairwise
      fun a b => decide (a.displayText ≤ b.displayText) = true := by
    apply List.pairwise_of_forall_mem_list
    intro a ha b hb
    rw [hdisplay a ha, hdisplay b hb]
    exact decide_eq_true (String.le_refl s)
  have hsub := List.sublist_mergeSort displayText_trans displayText_total htied
    List.filter_sublist
  have hkept := hsub.filter fun item => item.displayText == s
  rw [List.filter_filter, funext fun item => Bool.and_self _] at hkept
  exact (hkept.eq_of_length ((sorted_perm items).filter _).length_eq.symm).symm

/-- The display and the image of an element. -/
def shown (item : Value) : String × Json :=
  (item.displayText, imageOf item)

/-- So are they with their images. -/
theorem map_shown_pairwise (items : List Value) :
    ((sorted items).map shown).Pairwise fun p q => p.1 ≤ q.1 :=
  List.pairwise_map.mpr (pairwise_sorted items)

/-- The image of a set has the images of its sorted elements. -/
theorem imageOf_set_sorted (items : List Value) :
    imageOf (.set items) = .array (((sorted items).map shown).map (·.2)) := by
  rw [imageOf_set, List.map_map]
  rfl

/-- **Two listings have one image** if elements with one display do. -/
theorem imageOf_set_eq {items others : List Value} (hperm : items.Perm others)
    (hsame : ∀ a ∈ items, ∀ b ∈ items, a.displayText = b.displayText → imageOf a = imageOf b) :
    imageOf (.set items) = imageOf (.set others) := by
  have hsorted := sorted_perm_sorted hperm
  have hshown : (sorted items).map shown = (sorted others).map shown := by
    refine List.Perm.eq_of_pairwise ?_ (map_shown_pairwise items) (map_shown_pairwise others)
      (hsorted.map shown)
    intro p q hp hq hpq hqp
    obtain ⟨a, ha, rfl⟩ := List.mem_map.mp hp
    obtain ⟨b, hb, rfl⟩ := List.mem_map.mp hq
    have hdisplay : a.displayText = b.displayText := String.le_antisymm hpq hqp
    have hamem := (sorted_perm items).mem_iff.mp ha
    have hbmem := hperm.mem_iff.mpr ((sorted_perm others).mem_iff.mp hb)
    exact Prod.ext hdisplay (hsame a hamem b hbmem hdisplay)
  rw [imageOf_set_sorted, imageOf_set_sorted, hshown]

section

variable {items : List Value} (hparts : ∀ item ∈ items, item.IsLeaf)

/-- The elements of a set with an image have displays. -/
theorem display_of_image {j : Json} (h : image (.set items) = .ok j) {item : Value}
    (hitem : item ∈ items) : item.display = .ok item.displayText := by
  rw [image] at h
  obtain ⟨texts, htexts, -⟩ := bind_eq_ok_iff.mp h
  obtain ⟨text, -, htext⟩ := exists_of_forall₂ (mapM_eq_ok_iff.mp htexts) hitem
  rw [displayText_of_displayed htext]
  exact mapError_eq_ok_iff.mp htext

include hparts

/-- Scalars other than texts are told by their displays. -/
theorem eq_of_displayText {a b : Value} (ha : a ∈ items) (hb : b ∈ items)
    (hatext : ∀ s, a ≠ .text s) (hbtext : ∀ s, b ≠ .text s)
    (hadisplay : a.display = .ok a.displayText) (hbdisplay : b.display = .ok b.displayText)
    (h : a.displayText = b.displayText) : a = b := by
  apply spelled_injective (hparts a ha) (hparts b hb) hatext hbtext
  rw [← display_eq_spelled (hparts a ha) hadisplay, ← display_eq_spelled (hparts b hb) hbdisplay,
    h]

/-- Elements with one display are written alike, unless the set is ambiguous. -/
theorem imageOf_eq_of_displayText (hsettled : ¬ Ambiguous items) {j : Json}
    (hj : image (.set items) = .ok j) {a b : Value} (ha : a ∈ items) (hb : b ∈ items)
    (h : a.displayText = b.displayText) : imageOf a = imageOf b := by
  have hdisplay : ∀ item ∈ items, item.display = .ok item.displayText :=
    fun item hitem => display_of_image hj hitem
  have htext : ∀ {s : String} {item : Value}, .text s ∈ items → item ∈ items →
      s = item.displayText → imageOf item = .text s := by
    intro s item hs hitem heq
    by_cases hitemText : ∃ t, item = .text t
    · obtain ⟨t, rfl⟩ := hitemText
      rw [heq]
      rfl
    · by_cases hdate : ∃ d, item = .date d
      · obtain ⟨d, rfl⟩ := hdate
        rw [heq]
        rfl
      · refine absurd ⟨s, item, hs, hitem, fun t ht => hitemText ⟨t, ht⟩,
          fun d hd => hdate ⟨d, hd⟩, ?_⟩ hsettled
        rw [hdisplay item hitem, heq]
  by_cases hatext : ∃ s, a = .text s
  · obtain ⟨s, rfl⟩ := hatext
    exact (htext ha hb h).symm
  · by_cases hbtext : ∃ s, b = .text s
    · obtain ⟨s, rfl⟩ := hbtext
      exact htext hb ha h.symm
    · rw [eq_of_displayText hparts ha hb (fun s hs => hatext ⟨s, hs⟩) (fun s hs => hbtext ⟨s, hs⟩)
        (hdisplay a ha) (hdisplay b hb) h]

end

/-! ### Texts in front, and behind -/

/-- The value is a text. -/
def isText : Value → Bool
  | .text _ => true
  | _ => false

theorem isText_iff {value : Value} : isText value = true ↔ ∃ s, value = .text s := by
  cases value <;> simp [isText]

/-- The elements that are chosen, and behind them the others. -/
def arranged (front : Value → Bool) (items : List Value) : List Value :=
  items.filter front ++ items.filter fun item => !front item

/-- Arranging elements changes nothing but their order. -/
theorem arranged_perm (front : Value → Bool) (items : List Value) :
    (arranged front items).Perm items :=
  List.filter_append_perm front items

/-- The second character of bytes that are written is a digit. -/
theorem encode_ne_quoted {quote : Char} (hquote : quote = '\x27' ∨ quote = '\x22')
    (octets : List UInt8) (rest : List Char) :
    Text.Base64.encode octets ≠ 'b' :: quote :: rest := by
  have hdigit : ∀ n < 64, Text.Base64.digit n ≠ quote := by
    rcases hquote with rfl | rfl <;> decide
  intro h
  match octets, h with
  | [], h => cases h
  | [a], h => exact hdigit _ (Nat.mod_lt _ (by decide)) (List.cons.inj (List.cons.inj h).2).1
  | [a, b], h => exact hdigit _ (Nat.mod_lt _ (by decide)) (List.cons.inj (List.cons.inj h).2).1
  | a :: b :: c :: _, h =>
      exact hdigit _ (Nat.mod_lt _ (by decide)) (List.cons.inj (List.cons.inj h).2).1

/-- **Texts and dates** alone are written as they are displayed. -/
theorem imageOf_ne_text {value : Value} (h : value.IsLeaf) (htext : ∀ s, value ≠ .text s)
    (hdate : ∀ d, value ≠ .date d) {s : String} (hdisplay : value.display = .ok s) :
    imageOf value ≠ .text s := by
  have hs := display_eq_spelled h hdisplay
  cases h with
  | text t => exact absurd rfl (htext t)
  | date d => exact absurd rfl (hdate d)
  | bytes octets =>
      rw [hs]
      intro heq
      have hchars := String.ofList_injective (Json.text.inj heq)
      refine encode_ne_quoted ?_ octets _ hchars
      exact (Text.quoteFor_not_mem _).imp_right And.left
  | moment m =>
      rw [hs]
      intro heq
      have hchars := congrArg String.toList (Json.text.inj heq)
      have hiso : m.iso = m.isoWith "T" := rfl
      have hspelled : spelled .display (.moment m) = m.isoWith " " := rfl
      have hblank : " ".toList = [' '] := rfl
      have hletter : "T".toList = ['T'] := rfl
      rw [hiso, hspelled, Calendar.toList_momentIso hletter, Calendar.toList_momentIso hblank]
        at hchars
      exact absurd (List.cons.inj (List.append_cancel_left hchars)).1 (by decide)
  | _ => exact nofun

/-- Of the elements with one display, a chosen one comes first, if there is any. -/
theorem exists_head_arranged (front : Value → Bool) {items : List Value} {s : String} {item : Value}
    (hitem : item ∈ items) (hfront : front item = true) (hdisplay : item.displayText = s) :
    ∃ first ∈ items, front first = true ∧ first.displayText = s ∧
      ((arranged front items).filter fun item => item.displayText == s).head? = some first := by
  have hmem : item ∈ (items.filter front).filter fun item => item.displayText == s :=
    List.mem_filter.mpr ⟨List.mem_filter.mpr ⟨hitem, hfront⟩, beq_iff_eq.mpr hdisplay⟩
  obtain ⟨first, rest, hcons⟩ := List.exists_cons_of_ne_nil (List.ne_nil_of_mem hmem)
  have hfirst : first ∈ (items.filter front).filter fun item => item.displayText == s := by
    rw [hcons]
    exact List.mem_cons_self
  obtain ⟨hchosen, hshown⟩ := List.mem_filter.mp hfirst
  obtain ⟨hheld, hfirstFront⟩ := List.mem_filter.mp hchosen
  refine ⟨first, hheld, hfirstFront, eq_of_beq hshown, ?_⟩
  rw [arranged, List.filter_append, hcons, List.cons_append, List.head?_cons]

/-- Two listings with one image show the same in the same order. -/
theorem map_shown_eq {items others : List Value} (hperm : items.Perm others)
    (h : imageOf (.set items) = imageOf (.set others)) :
    (sorted items).map shown = (sorted others).map shown := by
  have hsorted := sorted_perm_sorted hperm
  have hdisplays : ((sorted items).map shown).map (·.1) = ((sorted others).map shown).map (·.1) :=
    List.Perm.eq_of_pairwise (fun _ _ _ _ => String.le_antisymm)
      (List.pairwise_map.mpr (map_shown_pairwise items))
      (List.pairwise_map.mpr (map_shown_pairwise others)) ((hsorted.map shown).map _)
  rw [imageOf_set_sorted, imageOf_set_sorted] at h
  rw [← List.zip_unzip ((sorted items).map shown), ← List.zip_unzip ((sorted others).map shown),
    List.unzip_eq_map, List.unzip_eq_map, hdisplays, Json.array.inj h]

/-- **An ambiguous set** has one image with its texts in front, and another one with its texts
behind. -/
theorem arranged_ne {items : List Value} (hparts : ∀ item ∈ items, item.IsLeaf)
    (h : Ambiguous items) {j k : Json}
    (hj : image (.set (arranged isText items)) = .ok j)
    (hk : image (.set (arranged (fun item => !isText item) items)) = .ok k) : j ≠ k := by
  obtain ⟨s, other, hs, hother, hotherText, hotherDate, hdisplay⟩ := h
  have hleaves : ∀ front, ∀ item ∈ arranged front items, item.IsLeaf := fun front item hitem =>
    hparts item ((arranged_perm front items).mem_iff.mp hitem)
  have hdisplays : ∀ item ∈ items, item.display = .ok item.displayText := fun item hitem =>
    display_of_image hj ((arranged_perm isText items).mem_iff.mpr hitem)
  have hotherDisplay : other.displayText = s := by
    rw [hdisplays other hother] at hdisplay
    exact Except.ok.inj hdisplay
  have hnotText : ∀ {item : Value}, (!isText item) = true ↔ ∀ t, item ≠ .text t := by
    intro item
    rw [Bool.not_eq_true', Bool.eq_false_iff, Ne, isText_iff, not_exists]
  intro heq
  rw [(image_leaves (hleaves _) hj).1, (image_leaves (hleaves _) hk).1] at heq
  have hperm : (arranged isText items).Perm (arranged (fun item => !isText item) items) :=
    (arranged_perm _ items).trans (arranged_perm _ items).symm
  -- Those with the display of the text stand as they are arranged, and are shown alike.
  have htied := congrArg (List.filter fun pair => pair.1 == s) (map_shown_eq hperm heq)
  rw [List.filter_map, List.filter_map] at htied
  have hfilter : ∀ items, (sorted items).filter ((fun pair => pair.1 == s) ∘ shown) =
      items.filter fun item => item.displayText == s := filter_sorted s
  rw [hfilter, hfilter] at htied
  have htextDisplay : (Value.text s).displayText = s := rfl
  obtain ⟨first, -, hfirstText, hfirstDisplay, hfirst⟩ :=
    exists_head_arranged isText hs (isText_iff.mpr ⟨s, rfl⟩) htextDisplay
  obtain ⟨last, hlastMem, hlastText, hlastDisplay, hlast⟩ :=
    exists_head_arranged (fun item => !isText item) hother (hnotText.mpr hotherText) hotherDisplay
  have hheads := congrArg List.head? htied
  rw [List.head?_map, List.head?_map, hfirst, hlast] at hheads
  have himage : imageOf first = imageOf last := congrArg Prod.snd (Option.some.inj hheads)
  obtain rfl := eq_of_displayText hparts hlastMem hother (hnotText.mp hlastText) hotherText
    (hdisplays last hlastMem) (hdisplays other hother) (hlastDisplay.trans hotherDisplay.symm)
  obtain ⟨t, rfl⟩ := isText_iff.mp hfirstText
  have hwritten : imageOf (.text t) = .text s := congrArg Json.text hfirstDisplay
  exact imageOf_ne_text (hparts last hother) hotherText hotherDate hdisplay
    (himage.symm.trans hwritten)

/-! ### From a value to its sets -/

/-- **Without ambiguous sets** there is one image over all orders. -/
theorem imaged_unique {value : Value} (hvalue : value.Loaded)
    (hsettled : ∀ items, Within (.set items) value → ¬ Ambiguous items) {j k : Json}
    (hj : Imaged List.Perm value j) (hk : Imaged List.Perm value k) : j = k := by
  induction hvalue generalizing j k with
  | leaf value hleaf => rw [imaged_leaf hleaf hj, imaged_leaf hleaf hk]
  | list items _ ih =>
      obtain ⟨js, rfl, hjs⟩ := imaged_list hj
      obtain ⟨ks, rfl, hks⟩ := imaged_list hk
      refine congrArg Json.array (forall₂_unique (fun item hitem _ _ => ?_) hjs hks)
      exact ih item hitem fun inner hinner => hsettled inner (.list hitem hinner)
  | tuple items _ ih =>
      obtain ⟨js, rfl, hjs⟩ := imaged_tuple hj
      obtain ⟨ks, rfl, hks⟩ := imaged_tuple hk
      refine congrArg Json.array (forall₂_unique (fun item hitem _ _ => ?_) hjs hks)
      exact ih item hitem fun inner hinner => hsettled inner (.tuple hitem hinner)
  | set items hparts _ =>
      obtain ⟨first, hfirst, hfirstImage⟩ := imaged_set hj
      obtain ⟨second, hsecond, hsecondImage⟩ := imaged_set hk
      have hfirstParts : ∀ item ∈ first, item.IsLeaf := fun item hitem =>
        hparts item (hfirst.mem_iff.mpr hitem)
      have hsecondParts : ∀ item ∈ second, item.IsLeaf := fun item hitem =>
        hparts item (hsecond.mem_iff.mpr hitem)
      have hfirstSettled : ¬ Ambiguous first := by
        intro h
        obtain ⟨s, other, hs, hother, hrest⟩ := h
        exact hsettled items (.self _)
          ⟨s, other, hfirst.mem_iff.mpr hs, hfirst.mem_iff.mpr hother, hrest⟩
      rw [(image_leaves hfirstParts hfirstImage).1, (image_leaves hsecondParts hsecondImage).1]
      refine imageOf_set_eq (hfirst.symm.trans hsecond) fun a ha b hb heq => ?_
      exact imageOf_eq_of_displayText hfirstParts hfirstSettled hfirstImage ha hb heq
  | map entries _ _ _ ih =>
      obtain ⟨members, rfl, hmembers⟩ := imaged_map hj
      obtain ⟨others, rfl, hothers⟩ := imaged_map hk
      refine congrArg Json.object (forall₂_unique (fun entry hentry member other hm ho => ?_)
        hmembers hothers)
      have hname := hm.1
      rw [ho.1] at hname
      have hinside : ∀ inner, Within (.set inner) entry.2 → ¬ Ambiguous inner :=
        fun inner hinner => hsettled inner (.map hentry hinner)
      exact Prod.ext (Except.ok.inj hname).symm (ih entry hentry hinside hm.2 ho.2)
  | cycle levels =>
      obtain ⟨other, horder, himage⟩ := hj
      rw [horder.of_cycle] at himage
      cases himage

/-- **An image over two orders** has an image over both of every part of the value. -/
theorem imaged_within {value part : Value} (h : Within part value) {j : Json}
    (hfirst : Imaged R value j) (hsecond : Imaged S value j) :
    ∃ k, Imaged R part k ∧ Imaged S part k := by
  induction h generalizing j with
  | self => exact ⟨j, hfirst, hsecond⟩
  | list hmem _ ih =>
      obtain ⟨js, rfl, hjs⟩ := imaged_list hfirst
      obtain ⟨ks, heq, hks⟩ := imaged_list hsecond
      obtain rfl := Json.array.inj heq
      obtain ⟨k, hk, hother⟩ := exists_of_forall₂_both hjs hks hmem
      exact ih hk hother
  | tuple hmem _ ih =>
      obtain ⟨js, rfl, hjs⟩ := imaged_tuple hfirst
      obtain ⟨ks, heq, hks⟩ := imaged_tuple hsecond
      obtain rfl := Json.array.inj heq
      obtain ⟨k, hk, hother⟩ := exists_of_forall₂_both hjs hks hmem
      exact ih hk hother
  | map hmem _ ih =>
      obtain ⟨members, rfl, hmembers⟩ := imaged_map hfirst
      obtain ⟨others, heq, hothers⟩ := imaged_map hsecond
      obtain rfl := Json.object.inj heq
      obtain ⟨member, hm, ho⟩ := exists_of_forall₂_both hmembers hothers hmem
      exact ih hm.2 ho.2

/-- What is written for a value in an order of its sets. -/
theorem write_reordered {value other made : Value} (hvalue : value.Loaded)
    (horder : Reordered R value other) (hmade : plain value = .ok made) {text : String}
    (hwrite : write other = .ok text) :
    ∃ j, Imaged R made j ∧ ofValue other = .ok j ∧ render j = text := by
  obtain ⟨-, j, hj, hrender⟩ := writeWithin_eq_ok_iff.mp hwrite
  obtain ⟨otherMade, hplain, hrelated⟩ := plain_reordered hvalue horder hmade
  refine ⟨j, ⟨otherMade, hrelated, ?_⟩, hj, hrender⟩
  rw [ofValue, hplain, bind_ok] at hj
  exact hj

/-- The listing of the chosen elements in front. -/
def Arranges (front : Value → Bool) (items others : List Value) : Prop :=
  others = arranged front items

/-- Elements that arrange others are the same in another order. -/
theorem perm_of_arranges {front : Value → Bool} (items others : List Value)
    (h : Arranges front items others) : items.Perm others := by
  rw [h]
  exact (arranged_perm front items).symm

/-- **The order of sets.**  Whether the value of a document can be written does not depend on the
order in which the elements of its sets are listed, at any depth.  Its text does not either,
exactly if no set that is written is ambiguous. -/
theorem set_order {text : List Char} {value : Value} {out : String}
    (hload : Yaml.load .decoded text = .ok value) (hwrite : write value = .ok out) :
    (∀ other, Reordered List.Perm value other → ∃ lines, write other = .ok lines) ∧
      ((∀ other, Reordered List.Perm value other → write other = .ok out) ↔
        ∀ made, plain value = .ok made → ∀ items, Within (.set items) made →
          ¬ Ambiguous items) := by
  have hvalue := Yaml.loaded_of_load hload
  obtain ⟨hroom, j, hj, hrender⟩ := writeWithin_eq_ok_iff.mp hwrite
  obtain ⟨made, hmade, himage⟩ := bind_eq_ok_iff.mp hj
  have hmadeLoaded := loaded_plain hvalue hmade
  have hwritten : ∀ other, Reordered List.Perm value other → ∃ lines, write other = .ok lines := by
    intro other horder
    obtain ⟨otherMade, hplain, hrelated⟩ := plain_reordered hvalue horder hmade
    obtain ⟨k, hk⟩ := image_reordered hmadeLoaded hrelated himage
    have hcalls := (writeCalls_reordered hvalue horder hj).trans hroom
    exact ⟨render k, writeWithin_eq_ok_iff.mpr
      ⟨hcalls, k, by rw [ofValue, hplain, bind_ok, hk], rfl⟩⟩
  refine ⟨hwritten, fun hsame found hfound items hitems hambiguous => ?_, fun hsettled => ?_⟩
  · obtain rfl : found = made := Except.ok.inj (hfound.symm.trans hmade)
    -- The value is written with texts in front in all of its sets, and with texts behind.
    have harranged : ∀ front, ∃ j, Imaged (Arranges front) found j ∧ Writable j ∧
        render j = out := by
      intro front
      have horders : ∀ items, ∃ others, Arranges front items others := fun _ => ⟨_, rfl⟩
      obtain ⟨other, horder⟩ := hvalue.exists_reordered horders
      have hperm := hvalue.reordered_mono perm_of_arranges horder
      obtain ⟨k, himaged, hk, htext⟩ := write_reordered hvalue horder hmade (hsame other hperm)
      obtain ⟨otherMade, hplain, hotherImage⟩ := bind_eq_ok_iff.mp hk
      have hrounded := plain_rounded (hvalue.rounded_reordered hperm) hplain
      exact ⟨k, himaged, writable_of_image hrounded hotherImage, htext⟩
    obtain ⟨first, hfirst, hfirstWritable, hfirstText⟩ := harranged isText
    obtain ⟨second, hsecond, hsecondWritable, hsecondText⟩ :=
      harranged fun item => !isText item
    have heq := render_injective hfirstWritable hsecondWritable
      (hfirstText.trans hsecondText.symm)
    obtain ⟨k, hk, hother⟩ := imaged_within hitems hfirst (heq ▸ hsecond)
    obtain ⟨_, rfl, hkImage⟩ := imaged_set hk
    obtain ⟨_, rfl, hotherImage⟩ := imaged_set hother
    cases hmadeLoaded.within hitems with
    | leaf _ hleaf => cases hleaf
    | set _ hparts => exact arranged_ne hparts hambiguous hkImage hotherImage rfl
  · intro other horder
    obtain ⟨lines, hlines⟩ := hwritten other horder
    obtain ⟨k, himaged, -, htext⟩ := write_reordered hvalue horder hmade hlines
    have hself : Imaged List.Perm made j :=
      ⟨made, hmadeLoaded.reordered_refl fun _ => List.Perm.refl _, himage⟩
    rw [hlines, ← htext, imaged_unique hmadeLoaded (hsettled made hmade) himaged hself, hrender]

/-- A whole number of few digits is displayed. -/
theorem display_int {i : Int} (h : i.natAbs < tenTo Number.digitLimit) :
    Value.display (.int i) = .ok (toString i) := by
  show Value.form [] (.int i) = _
  rw [Value.form, Value.writeInteger_ok h]

/-- A set of a number and the text of its digit. -/
def mixedSet : List Char :=
  "!!set \x7b'1', 1\x7d".toList

/-- The value is the set of these two. -/
def isMixedSet (value : Value) : Bool :=
  match value with
  | .set [.text s, .int i] => decide (s = "1" ∧ i = 1)
  | _ => false

/-- The set has two texts. -/
theorem set_order_sample :
    ∃ value other out lines, Yaml.load .decoded mixedSet = .ok value ∧ write value = .ok out ∧
      Reordered List.Perm value other ∧ write other = .ok lines ∧ lines ≠ out := by
  obtain ⟨value, hload, hmixed⟩ : ∃ value, Yaml.load .decoded mixedSet = .ok value ∧
      isMixedSet value = true := Source.ok_of_any (by decide +kernel)
  unfold isMixedSet at hmixed
  split at hmixed
  · next s i =>
      obtain ⟨rfl, rfl⟩ := of_decide_eq_true hmixed
      have hone : (1 : Int).natAbs < tenTo Number.digitLimit := one_lt_tenTo (by decide)
      have hkeys : ∀ item ∈ [Value.text "1", .int 1], item.IsKey :=
        List.forall_mem_cons.mpr ⟨.text "1", List.forall_mem_singleton.mpr (.int 1 hone)⟩
      have hset : (Value.set [Value.text "1", .int 1]).Encodable := .set _ hkeys
      have hroom : writeCalls (.set [.text "1", .int 1]) ≤ stackLimit - callsBefore :=
        (writeCalls_le hset).trans (by decide)
      obtain ⟨out, hout⟩ := exists_writeWithin hset hroom
      obtain ⟨hwritten, hsame⟩ := set_order hload hout
      have hambiguous : Ambiguous [Value.text "1", .int 1] :=
        ⟨"1", .int 1, List.mem_cons_self, List.mem_cons_of_mem _ List.mem_cons_self, nofun, nofun,
          display_int hone⟩
      have hother : ¬ ∀ other, Reordered List.Perm (.set [Value.text "1", .int 1]) other →
          write other = .ok out := by
        intro hall
        exact hsame.mp hall _ rfl _ (.self _) hambiguous
      push Not at hother
      obtain ⟨other, horder, hdiffers⟩ := hother
      obtain ⟨lines, hlines⟩ := hwritten other horder
      refine ⟨_, other, out, lines, hload, hout, horder, hlines, fun heq => hdiffers ?_⟩
      rw [hlines, heq]
  · cases hmixed

end Json

end ContentCatalog
