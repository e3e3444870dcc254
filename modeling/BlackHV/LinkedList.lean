import BlackHV.Chains
import BlackHV.Fault

/-! # The doubly linked list

`linked_list.c`: nodes with `prev` and `next` pointers, and a head, a tail and a size.
The nodes live in a heap, a partial map from addresses; a pointer is `none` where it
is `NULL`.  A load or a store through `NULL` or through the address of a node that is
not allocated faults, so a function that returns has followed live pointers only.

`malloc` is an argument of `linked_list_add`: the address of the new block, or `none`.
What `free_func` does with a value is its own business; `freed` lists the values it
has been called on.
-/
namespace BlackHV

/-- `struct linked_list_elt`. -/
structure LinkedListElt (Value : Type) where
  prev : Option Nat
  next : Option Nat
  value : Value
  deriving DecidableEq

/-- The live nodes, by their address. -/
abbrev LinkedListHeap (Value : Type) := Nat → Option (LinkedListElt Value)

/-- The heap with `elt` at an address, or with nothing there. -/
def LinkedListHeap.put {Value : Type} (heap : LinkedListHeap Value) (address : Nat)
    (elt : Option (LinkedListElt Value)) : LinkedListHeap Value :=
  fun a => if a = address then elt else heap a

/-- `*pointer`, and the address it is at. -/
def LinkedListHeap.deref {Value : Type} (heap : LinkedListHeap Value) :
    Option Nat → Except Fault (Nat × LinkedListElt Value)
  | none => .error .nullDereference
  | some address =>
      match heap address with
      | some elt => .ok (address, elt)
      | none => .error .notAllocated

/-- `linked_list_t`, with the heap its nodes live in.  `freeFunc` tells whether
`free_func` is not `NULL`. -/
structure LinkedList (Value : Type) where
  heap : LinkedListHeap Value
  head : Option Nat
  tail : Option Nat
  size : UInt32
  freeFunc : Bool
  freed : List Value

variable {Value State : Type}

/-- `linked_list_new`.  `block` tells whether `malloc` succeeds. -/
def linkedListNew (Value : Type) (freeFunc : Bool) (block : Bool) : Option (LinkedList Value) :=
  if block then
    some { heap := fun _ => none, head := none, tail := none, size := 0, freeFunc, freed := [] }
  else
    none

namespace LinkedList

/-- The list with `elt` at an address, or with nothing there. -/
def put (list : LinkedList Value) (address : Nat) (elt : Option (LinkedListElt Value)) :
    LinkedList Value :=
  { list with heap := list.heap.put address elt }

/-- `pointer->prev`. -/
def loadPrev (list : LinkedList Value) (pointer : Option Nat) : Except Fault (Option Nat) := do
  let (_, elt) ← list.heap.deref pointer
  .ok elt.prev

/-- `pointer->next`. -/
def loadNext (list : LinkedList Value) (pointer : Option Nat) : Except Fault (Option Nat) := do
  let (_, elt) ← list.heap.deref pointer
  .ok elt.next

/-- `pointer->value`. -/
def loadValue (list : LinkedList Value) (pointer : Option Nat) : Except Fault Value := do
  let (_, elt) ← list.heap.deref pointer
  .ok elt.value

/-- `pointer->prev = prev`. -/
def storePrev (list : LinkedList Value) (pointer prev : Option Nat) :
    Except Fault (LinkedList Value) := do
  let (address, elt) ← list.heap.deref pointer
  .ok (list.put address (some { elt with prev }))

/-- `pointer->next = next`. -/
def storeNext (list : LinkedList Value) (pointer next : Option Nat) :
    Except Fault (LinkedList Value) := do
  let (address, elt) ← list.heap.deref pointer
  .ok (list.put address (some { elt with next }))

/-- `free(pointer)`. -/
def free (list : LinkedList Value) (pointer : Option Nat) : Except Fault (LinkedList Value) := do
  let (address, _) ← list.heap.deref pointer
  .ok (list.put address none)

end LinkedList

open LinkedList

/-- `linked_list_add`. -/
def linkedListAdd (list : LinkedList Value) (value : Value) (elt : Option Nat) :
    Except Fault (LinkedList Value × UInt32) :=
  match elt with
  | none => .ok (list, 0)
  | some address => do
      let list := list.put address (some { prev := list.tail, next := none, value })
      let list ←
        if list.tail ≠ none then do
          let list ← list.storeNext list.tail elt
          list.storePrev list.head elt
        else
          .ok { list with head := elt }
      .ok ({ list with tail := elt, size := list.size + 1 }, 1)

/-- `linked_list_pop_tail`: the value, where the list is not empty. -/
def linkedListPopTail (list : LinkedList Value) :
    Except Fault (LinkedList Value × Option Value) :=
  if list.tail = none then
    .ok (list, none)
  else do
    let tail := list.tail
    let value ← list.loadValue tail
    let list ←
      if tail = list.head then
        .ok { list with tail := none, head := none, size := 0 }
      else do
        let prev ← list.loadPrev tail
        let list ← list.storeNext prev none
        .ok { list with size := list.size - 1 }
    let prev ← list.loadPrev tail
    let list ← { list with tail := prev }.free tail
    .ok (list, some value)

/-- `linked_list_pop_front`: the value, where the list is not empty. -/
def linkedListPopFront (list : LinkedList Value) :
    Except Fault (LinkedList Value × Option Value) :=
  if list.head = none then
    .ok (list, none)
  else do
    let head := list.head
    let value ← list.loadValue head
    let list ←
      if head = list.tail then
        .ok { list with head := none, tail := none, size := 0 }
      else do
        let next ← list.loadNext head
        let list ← list.storePrev next none
        .ok { list with size := list.size - 1 }
    let next ← list.loadNext head
    let list ← { list with head := next }.free head
    .ok (list, some value)

/-- `if (elt->prev != NULL) elt->prev->next = elt->next`. -/
def bypassNext (list : LinkedList Value) (elt : Option Nat) : Except Fault (LinkedList Value) := do
  let prev ← list.loadPrev elt
  if prev ≠ none then do
    let next ← list.loadNext elt
    list.storeNext prev next
  else
    .ok list

/-- `if (elt->next != NULL) elt->next->prev = elt->prev`. -/
def bypassPrev (list : LinkedList Value) (elt : Option Nat) : Except Fault (LinkedList Value) := do
  let next ← list.loadNext elt
  if next ≠ none then do
    let prev ← list.loadPrev elt
    list.storePrev next prev
  else
    .ok list

/-- `remove_elt`. -/
def removeElt (list : LinkedList Value) (elt : Option Nat) : Except Fault (LinkedList Value) := do
  let list ← bypassNext list elt
  let list ← bypassPrev list elt
  let next ← list.loadNext elt
  let list := { list with head := if list.head = elt then next else list.head }
  let prev ← list.loadPrev elt
  let list := { list with tail := if list.tail = elt then prev else list.tail }
  let value ← list.loadValue elt
  let list := { list with freed := if list.freeFunc then list.freed ++ [value] else list.freed }
  let list ← list.free elt
  .ok { list with size := list.size - 1 }

/-- The loop of `linked_list_remove_at`, with `left` nodes to skip. -/
def removeAtLoop (list : LinkedList Value) :
    Option Nat → Nat → Except Fault (LinkedList Value × UInt32)
  | none, _ => .ok (list, 0)
  | some elt, 0 => do
      let list ← removeElt list (some elt)
      .ok (list, 1)
  | some elt, left + 1 => do
      let next ← list.loadNext (some elt)
      removeAtLoop list next left

/-- `linked_list_remove_at`. -/
def linkedListRemoveAt (list : LinkedList Value) (index : UInt32) :
    Except Fault (LinkedList Value × UInt32) :=
  removeAtLoop list list.head index.toNat

/-- The loop of `linked_list_remove_eq`.  It need not terminate on a list whose nodes
form a cycle; `fuel` bounds the number of its passes. -/
def removeEqLoop (eqFunc : Value → UInt32) (list : LinkedList Value) (removed : UInt32) :
    Option Nat → Nat → Except Fault (LinkedList Value × UInt32)
  | none, _ => .ok (list, removed)
  | some _, 0 => .error .divergence
  | some current, fuel + 1 => do
      let tmp ← list.loadNext (some current)
      if eqFunc (← list.loadValue (some current)) = 1 then do
        let list ← removeElt list (some current)
        removeEqLoop eqFunc list (removed + 1) tmp fuel
      else
        removeEqLoop eqFunc list removed tmp fuel

/-- `linked_list_remove_eq`, where `eq_func` is `none` if it is `NULL`. -/
def linkedListRemoveEq (list : LinkedList Value) (eqFunc : Option (Value → UInt32))
    (fuel : Nat) : Except Fault (LinkedList Value × UInt32) :=
  match eqFunc with
  | none => .ok (list, 0)
  | some eqFunc => removeEqLoop eqFunc list 0 list.head fuel

/-- The loop of `linked_list_get`, with `left` nodes to skip. -/
def getLoop (list : LinkedList Value) : Option Nat → Nat → Except Fault (Option Value)
  | none, _ => .ok none
  | some elt, 0 => do
      let value ← list.loadValue (some elt)
      .ok (some value)
  | some elt, left + 1 => do
      let next ← list.loadNext (some elt)
      getLoop list next left

/-- `linked_list_get`: the value, where there is one at the index. -/
def linkedListGet (list : LinkedList Value) (index : UInt32) : Except Fault (Option Value) :=
  getLoop list list.head index.toNat

/-- The loop of `linked_list_for_each`.  What `func` does is a function on a state of its
own.  As with the other loops, `fuel` bounds the number of passes. -/
def forEachLoop (func : State → UInt32 → Value → Except Fault State) (list : LinkedList Value)
    (s : State) (i : UInt32) : Option Nat → Nat → Except Fault State
  | none, _ => .ok s
  | some _, 0 => .error .divergence
  | some current, fuel + 1 => do
      let value ← list.loadValue (some current)
      let s ← func s i value
      let next ← list.loadNext (some current)
      forEachLoop func list s (i + 1) next fuel

/-- `linked_list_for_each`, where `func` is `none` if it is `NULL`. -/
def linkedListForEach (list : LinkedList Value)
    (func : Option (State → UInt32 → Value → Except Fault State)) (s : State) (fuel : Nat) :
    Except Fault State :=
  match func with
  | none => .ok s
  | some func => forEachLoop func list s 0 list.head fuel

/-- The loop of `linked_list_for_each_rev`. -/
def forEachRevLoop (func : State → UInt32 → Value → Except Fault State) (list : LinkedList Value)
    (s : State) (i : UInt32) : Option Nat → Nat → Except Fault State
  | none, _ => .ok s
  | some _, 0 => .error .divergence
  | some current, fuel + 1 => do
      let value ← list.loadValue (some current)
      let s ← func s i value
      let prev ← list.loadPrev (some current)
      forEachRevLoop func list s (i - 1) prev fuel

/-- `linked_list_for_each_rev`, where `func` is `none` if it is `NULL`. -/
def linkedListForEachRev (list : LinkedList Value)
    (func : Option (State → UInt32 → Value → Except Fault State)) (s : State) (fuel : Nat) :
    Except Fault State :=
  match func with
  | none => .ok s
  | some func => forEachRevLoop func list s (list.size - 1) list.tail fuel

/-- `linked_list_size` on a list that is not `NULL`. -/
def linkedListSize (list : LinkedList Value) : UInt64 := list.size.toUInt64

end BlackHV
