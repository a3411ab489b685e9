import Mathlib.Data.List.Basic

/-!
# The heap of the iterator (`_heap_adjust`, `_make_heap`)

The heap is an array, a list here; an item that is not there compares as the null pointer does.
The functions take the comparison as a parameter: the source always uses `_item_cmp`.
-/

namespace Bagdb.Kvs

variable {α : Type} (cmp : Option α → Option α → Int)

/-- `_item_swap` of two elements of the array. -/
def itemSwap (a : List α) (i j : Nat) : List α :=
  match a[i]?, a[j]? with
  | some x, some y => (a.set i y).set j x
  | _, _ => a

/-- `_heap_adjust`. The nested calls pass `len` as the index and the child as the length. The
indices are `int`s and cannot overflow: `len` is at most `nb_workers`, which is at most 128
(`kvs_start_loop` asserts that `_get_cpu_mask` knows the number). -/
def heapAdjust (itemArray : List α) (index len : Nat) : List α :=
  let left := 2 * index + 1
  let right := 2 * index + 2
  if left > len - 1 then itemArray
  else if left = len - 1 then
    if cmp itemArray[index]? itemArray[left]? < 0 then itemSwap itemArray index left
    else itemArray
  else
    let il := cmp itemArray[index]? itemArray[left]?
    let ir := cmp itemArray[index]? itemArray[right]?
    let lr := cmp itemArray[left]? itemArray[right]?
    if il < 0 ∨ ir < 0 then
      if lr < 0 then heapAdjust (itemSwap itemArray index right) len right
      else heapAdjust (itemSwap itemArray index left) len left
    else itemArray
termination_by len
decreasing_by all_goals omega

/-- `_make_heap`. -/
def makeHeap (itemArray : List α) (len : Nat) : List α :=
  (List.range len).reverse.foldl
    (fun a i => if 2 * i + 1 > len - 1 then a else heapAdjust cmp a i len) itemArray

end Bagdb.Kvs
