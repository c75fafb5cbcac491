import ContentCatalog.Json.Basic

/-!
# Calls under way

The writer calls itself for the parts of a container, and the stack of the interpreter
holds only so many calls at a time.  This file counts how many the two passes come to: one for
every function, comprehension or generator that waits for a part, and one for a built-in at
the end.  In the first pass that are two for each list and each mapping on the way down; in the
second one it is one for each of these and three for each set.

The parts of a container are taken in their order, so those behind a part that is refused are
not reached and do not count.

* `reach` : the calls for a part and for what comes behind it;
* `plainCalls`, `imageCalls` : the calls in each of the passes;
* `writeCalls` : the calls for a value, over both passes.
-/

namespace ContentCatalog.Json

/-- The calls for a part and for what comes behind it, which is not reached if the part is
refused. -/
def reach (calls : Nat) (passes : Bool) (behind : Nat) : Nat :=
  max calls (if passes then behind else 0)

/-- The calls for parts one behind the other, as far as they are reached. -/
def reachAll {α : Type} (calls : α → Nat) (passes : α → Bool) : List α → Nat
  | [] => 0
  | part :: parts => reach (calls part) (passes part) (reachAll calls passes parts)

mutual

/-- The calls for the inner form of a value. -/
def formCalls : Value → Nat
  | .list items => 1 + formsCalls items
  | .tuple items => 1 + formsCalls items
  | .set items => 1 + formsCalls items
  | .map entries => 1 + entryFormsCalls entries
  | _ => 1

/-- The calls for the inner forms of the items of a container. -/
def formsCalls : List Value → Nat
  | [] => 0
  | item :: items => reach (formCalls item) (Value.form [] item).isOk (formsCalls items)

/-- The calls for the inner forms of the entries of a mapping. -/
def entryFormsCalls : List (Value × Value) → Nat
  | [] => 0
  | (key, value) :: entries =>
    reach (formCalls key) (Value.form [] key).isOk
      (reach (formCalls value) (Value.form [] value).isOk (entryFormsCalls entries))

end

/-- The calls for the display of a value.  A text is its own display. -/
def displayCalls : Value → Nat
  | .text _ => 0
  | value => formCalls value

/-! ### The first pass -/

/-- The calls for the key of an entry. -/
def plainKeyCalls (key : Value) : Nat :=
  1 + max 1 (displayCalls key)

mutual

/-- The calls for a value in the first pass. -/
def plainCalls : Value → Nat
  | .map entries => 2 + plainEntriesCalls entries
  | .list items => 2 + plainItemsCalls items
  | .tuple items => 2 + plainItemsCalls items
  | _ => 2

/-- The calls for the items of a container in the first pass. -/
def plainItemsCalls : List Value → Nat
  | [] => 0
  | item :: items => reach (plainCalls item) (plain item).isOk (plainItemsCalls items)

/-- The calls for the entries of a mapping in the first pass. -/
def plainEntriesCalls : List (Value × Value) → Nat
  | [] => 0
  | (key, value) :: entries =>
    reach (plainKeyCalls key) (plainKey key).isOk
      (reach (plainCalls value) (plain value).isOk (plainEntriesCalls entries))

end

/-! ### The second pass -/

/-- The calls for the displays by which the items of a set are sorted. -/
def sortCalls (items : List Value) : Nat :=
  reachAll (fun item => 1 + displayCalls item) (fun item => (displayed item).isOk) items

/-- The calls for the name of a key. -/
def keyTextCalls : Value → Nat
  | .float _ => 2
  | _ => 1

mutual

/-- The calls for a part of a value in the second pass. -/
def imageCalls : Value → Nat
  | .float _ => 2
  | .date _ | .moment _ | .time _ | .foreign _ => 3
  | .bytes _ => 4
  | .list items => 1 + imagesCalls items
  | .tuple items => 1 + imagesCalls items
  | .set items => 3 + reach (sortCalls items) (items.mapM displayed).isOk (imagesCalls items)
  | .map entries => 1 + imageMembersCalls entries
  | _ => 1

/-- The calls for the items of a container in the second pass. -/
def imagesCalls : List Value → Nat
  | [] => 0
  | item :: items => reach (imageCalls item) (image item).isOk (imagesCalls items)

/-- The calls for the entries of a mapping in the second pass. -/
def imageMembersCalls : List (Value × Value) → Nat
  | [] => 0
  | (key, value) :: entries =>
    reach (keyTextCalls key) (keyText key).isOk
      (reach (imageCalls value) (image value).isOk (imageMembersCalls entries))

end

/-- The calls that lead to a whole value in the second pass.  Texts and what JSON has no kind
for come to their own calls one step earlier. -/
def entryCalls : Value → Nat
  | .text _ | .bytes _ | .date _ | .moment _ | .time _ | .set _ | .foreign _ => 2
  | _ => 3

/-! ### Both passes -/

/-- The calls for a value, over both passes. -/
def writeCalls (value : Value) : Nat :=
  match plain value with
  | .ok made => max (plainCalls value) (entryCalls made + imageCalls made)
  | .error _ => plainCalls value

/-- The calls that the stack of the interpreter holds. -/
def stackLimit : Nat := 1000

/-- The calls from the start of the program to the writer. -/
def callsBefore : Nat := 6

end ContentCatalog.Json
