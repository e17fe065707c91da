import Orion68.Lib.Chains
import Orion68.Lib.Memory

namespace Orion68.Malloc

open Chains Memory

/-- A `Block *`: the place of the block in the array that follows the `Heap`. -/
abbrev BlockPtr := Nat

structure Block where
  addr : UInt32
  next : Option BlockPtr
  size : UInt32
  deriving DecidableEq

structure Heap where
  block : BlockPtr → Block
  free : Option BlockPtr
  used : Option BlockPtr
  fresh : Option BlockPtr
  top : UInt32

/-- What `malloc_init` stores in the static variables; `heap` is its `base`. -/
structure Settings where
  heap : UInt32
  heapLimit : UInt32
  heapMaxBlocks : UInt32
  heapSplitThresh : UInt32
  heapAlignment : UInt32
  deriving DecidableEq

/-- `sizeof(Heap)` and `sizeof(Block)`. -/
abbrev sizeofHeap : UInt32 := 16
abbrev sizeofBlock : UInt32 := 12

namespace Heap

def addr (h : Heap) (p : BlockPtr) : UInt32 := (h.block p).addr

def next (h : Heap) (p : BlockPtr) : Option BlockPtr := (h.block p).next

def size (h : Heap) (p : BlockPtr) : UInt32 := (h.block p).size

def setAddr (h : Heap) (p : BlockPtr) (a : UInt32) : Heap :=
  { h with block := Function.update h.block p { h.block p with addr := a } }

def setNext (h : Heap) (p : BlockPtr) (n : Option BlockPtr) : Heap :=
  { h with block := Function.update h.block p { h.block p with next := n } }

def setSize (h : Heap) (p : BlockPtr) (n : UInt32) : Heap :=
  { h with block := Function.update h.block p { h.block p with size := n } }

/-- `prev->next = v`, or `heap->free = v` when there is no `prev`. -/
def linkFree (h : Heap) (prev v : Option BlockPtr) : Heap :=
  match prev with
  | some z => h.setNext z v
  | none => { h with free := v }

/-- `prev->next = v`, or `heap->used = v` when there is no `prev`. -/
def linkUsed (h : Heap) (prev v : Option BlockPtr) : Heap :=
  match prev with
  | some z => h.setNext z v
  | none => { h with used := v }

end Heap

/-- A traversal that has not ended after every block has been met once never ends. -/
def Settings.rounds (s : Settings) : Nat := s.heapMaxBlocks.toNat + 1

def insertBlock (s : Settings) (block : BlockPtr) (h : Heap) : Option Heap :=
  (search h.next (fun ptr => h.addr block ≤ h.addr ptr) s.rounds none h.free).map fun (prev, ptr) =>
    (h.linkFree prev (some block)).setNext block ptr

def releaseBlock (scan : BlockPtr) (h : Heap) : Heap :=
  let h := h.setNext scan h.fresh
  let h := { h with fresh := some scan }
  let h := h.setAddr scan 0
  h.setSize scan 0

def releaseBlocks : Nat → Option BlockPtr → Option BlockPtr → Heap → Option Heap
  | 0, _, _, _ => none
  | fuel + 1, scan, stop, h =>
      if scan = stop then some h
      else scan.bind fun p => releaseBlocks fuel (h.next p) stop (releaseBlock p h)

/-- The loop of `compact` that ends with `prev` at the last of the blocks that follow each other in
memory. -/
def lastAdjacent (h : Heap) : Nat → BlockPtr → Option BlockPtr → Option BlockPtr
  | 0, _, _ => none
  | _ + 1, prev, none => some prev
  | fuel + 1, prev, some scan =>
      if h.addr prev + h.size prev = h.addr scan then lastAdjacent h fuel scan (h.next scan) else some prev

/-- What `compact` does when the loop has ended with `prev`. -/
def mergeUpTo (s : Settings) (ptr prev : BlockPtr) (h : Heap) : Option Heap :=
  if prev ≠ ptr then
    let newSize := h.addr prev - h.addr ptr + h.size prev
    let h := h.setSize ptr newSize
    let next := h.next prev
    (releaseBlocks s.rounds (h.next ptr) (h.next prev) h).map fun h => h.setNext ptr next
  else some h

def compactFrom (s : Settings) : Nat → Option BlockPtr → Heap → Option Heap
  | 0, _, _ => none
  | _ + 1, none, h => some h
  | fuel + 1, some ptr, h =>
      (lastAdjacent h s.rounds ptr (h.next ptr)).bind fun prev =>
        (mergeUpTo s ptr prev h).bind fun h => compactFrom s fuel (h.next ptr) h

def compact (s : Settings) (h : Heap) : Option Heap := compactFrom s s.rounds h.free h

/-- `while (i--) { block->next = block + 1; block++; }` and `block->next = NULL`. -/
def chainFresh : Nat → BlockPtr → Heap → Heap
  | 0, block, h => h.setNext block none
  | i + 1, block, h => chainFresh i (block + 1) (h.setNext block (some (block + 1)))

def mallocInit (s : Settings) (block : BlockPtr → Block) : Heap :=
  chainFresh (s.heapMaxBlocks - 1).toNat 0
    { block, free := none, used := none, fresh := some 0, top := s.heap + sizeofHeap + s.heapMaxBlocks * sizeofBlock }

/-- Whether the block was in use, and the heap afterwards. -/
def free (s : Settings) (ptr : UInt32) (h : Heap) : Option (Bool × Heap) :=
  (search h.next (fun block => ptr = h.addr block) s.rounds none h.used).bind fun
  | (prev, some block) =>
      ((insertBlock s block (h.linkUsed prev (h.next block))).bind (compact s)).map fun h => (true, h)
  | (_, none) => some (false, h)

/-- `(num + heap_alignment - 1) & -heap_alignment`. -/
def Settings.roundUp (s : Settings) (num : UInt32) : UInt32 :=
  (num + s.heapAlignment - 1) &&& (0 - s.heapAlignment)

def isTop (s : Settings) (num : UInt32) (h : Heap) (ptr : BlockPtr) : Bool :=
  h.top ≤ h.addr ptr + h.size ptr ∧ h.addr ptr + num ≤ s.heapLimit

/-- The block goes from the free ones, where it follows `prev`, to the used ones. -/
def takeBlock (prev : Option BlockPtr) (ptr : BlockPtr) (h : Heap) : Heap :=
  let h := h.linkFree prev (h.next ptr)
  let h := h.setNext ptr h.used
  { h with used := some ptr }

/-- The fresh block `split` takes over what is beyond `num` of the block. -/
def carveBlock (num : UInt32) (ptr split : BlockPtr) (h : Heap) : Heap :=
  let excess := h.size ptr - num
  let h := h.setSize ptr num
  let h := { h with fresh := h.next split }
  let h := h.setAddr split (h.addr ptr + num)
  h.setSize split excess

def splitBlock (s : Settings) (num : UInt32) (ptr split : BlockPtr) (h : Heap) : Option Heap :=
  let excess := h.size ptr - num
  if s.heapSplitThresh ≤ excess then (insertBlock s split (carveBlock num ptr split h)).bind (compact s)
  else some h

/-- The fresh block `ptr` becomes a used one of `num` bytes at the top. -/
def newBlock (num : UInt32) (ptr : BlockPtr) (h : Heap) : Heap :=
  let top := h.top
  let h := { h with fresh := h.next ptr }
  let h := h.setAddr ptr top
  let h := h.setNext ptr h.used
  let h := h.setSize ptr num
  { h with used := some ptr, top := top + num }

/-- The used block `ptr` ends at the new top. -/
def resizeTop (num : UInt32) (ptr : BlockPtr) (h : Heap) : Heap :=
  let h := h.setSize ptr num
  { h with top := h.addr ptr + num }

def allocBlock (s : Settings) (num : UInt32) (h : Heap) : Option (Option BlockPtr × Heap) :=
  let num := s.roundUp num
  (search h.next (fun ptr => isTop s num h ptr ∨ num ≤ h.size ptr) s.rounds none h.free).bind fun
  | (prev, some ptr) =>
      let h' := takeBlock prev ptr h
      if isTop s num h ptr then some (some ptr, resizeTop num ptr h')
      else
        match h'.fresh with
        | some split => (splitBlock s num ptr split h').map fun h => (some ptr, h)
        | none => some (some ptr, h')
  | (_, none) =>
      match h.fresh with
      | some ptr => if h.top + num ≤ s.heapLimit then some (some ptr, newBlock num ptr h) else some (none, h)
      | none => some (none, h)

/-- `NULL` is 0. -/
def malloc (s : Settings) (num : UInt32) (h : Heap) : Option (UInt32 × Heap) :=
  (allocBlock s num h).map fun
  | (some block, h) => (h.addr block, h)
  | (none, h) => (0, h)

/-- `while (numw--) *ptrw++ = 0;` and `while (num--) *ptrb++ = 0;`: `n` rounds of one loop, each of
which clears `width` bytes. -/
def clearLoop (width : Nat) : Nat → UInt32 → Ram → UInt32 × Ram
  | 0, p, m => (p, m)
  | n + 1, p, m => clearLoop width n (p + UInt32.ofNat width) (write p (List.replicate width 0) m)

def memclear (ptr num : UInt32) (m : Ram) : Ram :=
  let numw := (num &&& (0 - 4)) / 4
  let (ptrb, m) := clearLoop 4 numw.toNat ptr m
  (clearLoop 1 (num &&& (4 - 1)).toNat ptrb m).2

def calloc (s : Settings) (num size : UInt32) (h : Heap) (m : Ram) : Option (UInt32 × Heap × Ram) :=
  let num := num * size
  (allocBlock s num h).map fun
  | (some block, h) => (h.addr block, h, memclear (h.addr block) num m)
  | (none, h) => (0, h, m)

def mallocNumFree (s : Settings) (h : Heap) : Option Nat := count h.next s.rounds h.free

def mallocNumUsed (s : Settings) (h : Heap) : Option Nat := count h.next s.rounds h.used

def mallocNumFresh (s : Settings) (h : Heap) : Option Nat := count h.next s.rounds h.fresh

def mallocCheck (s : Settings) (h : Heap) : Option Bool :=
  (mallocNumFree s h).bind fun free => (mallocNumUsed s h).bind fun used => (mallocNumFresh s h).map fun fresh =>
    s.heapMaxBlocks.toNat = free + used + fresh

section Fields

variable (h : Heap) (p : BlockPtr) (n prev v : Option BlockPtr) (a : UInt32)

@[simp] theorem Heap.next_setNext : (h.setNext p n).next = Function.update h.next p n := by
  funext q
  by_cases hq : q = p <;> simp [Heap.next, Heap.setNext, hq]

@[simp] theorem Heap.addr_setNext : (h.setNext p n).addr = h.addr := by
  funext q
  by_cases hq : q = p <;> simp [Heap.addr, Heap.setNext, hq]

@[simp] theorem Heap.size_setNext : (h.setNext p n).size = h.size := by
  funext q
  by_cases hq : q = p <;> simp [Heap.size, Heap.setNext, hq]

@[simp] theorem Heap.next_setAddr : (h.setAddr p a).next = h.next := by
  funext q
  by_cases hq : q = p <;> simp [Heap.next, Heap.setAddr, hq]

@[simp] theorem Heap.addr_setAddr : (h.setAddr p a).addr = Function.update h.addr p a := by
  funext q
  by_cases hq : q = p <;> simp [Heap.addr, Heap.setAddr, hq]

@[simp] theorem Heap.size_setAddr : (h.setAddr p a).size = h.size := by
  funext q
  by_cases hq : q = p <;> simp [Heap.size, Heap.setAddr, hq]

@[simp] theorem Heap.next_setSize : (h.setSize p a).next = h.next := by
  funext q
  by_cases hq : q = p <;> simp [Heap.next, Heap.setSize, hq]

@[simp] theorem Heap.addr_setSize : (h.setSize p a).addr = h.addr := by
  funext q
  by_cases hq : q = p <;> simp [Heap.addr, Heap.setSize, hq]

@[simp] theorem Heap.size_setSize : (h.setSize p a).size = Function.update h.size p a := by
  funext q
  by_cases hq : q = p <;> simp [Heap.size, Heap.setSize, hq]

@[simp] theorem Heap.next_linkFree : (h.linkFree prev v).next = relink prev v h.next := by
  cases prev with
  | none => rfl
  | some z => exact h.next_setNext z v

@[simp] theorem Heap.next_linkUsed : (h.linkUsed prev v).next = relink prev v h.next := by
  cases prev with
  | none => rfl
  | some z => exact h.next_setNext z v

end Fields

end Orion68.Malloc
