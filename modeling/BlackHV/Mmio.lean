import BlackHV.Memory

/-! # MMIO regions

`mmio.c`: a table of 64 regions, shared by all VMs.  A slot whose `id` is -1 is
available; `mmio_register` copies a region into the first such slot, and
`mmio_handle_write` hands a write to every slot whose range has the address.

A handler is known by its address, and what it does is not modelled: a dispatch is the
list of the calls it makes.
-/
namespace BlackHV

/-- `MAX_MMIO_REGION_COUNT`. -/
def maxMmioRegionCount : Nat := 64

/-- `struct mmio_region`. -/
structure MmioRegion where
  id : Int32
  baseAddress : UInt64
  highAddress : UInt64
  writeHandler : Option UInt64
  readHandler : Option UInt64
  data : UInt64
  deriving DecidableEq

/-- `mmio_regions`. -/
abbrev MmioTable := Vector MmioRegion maxMmioRegionCount

namespace MmioTable

/-- The table as the program starts: all zeros. -/
def zero : MmioTable :=
  Vector.replicate _ { id := 0, baseAddress := 0, highAddress := 0, writeHandler := none,
                       readHandler := none, data := 0 }

/-- Slot `i` of the table. -/
def slot (table : MmioTable) (i : Fin maxMmioRegionCount) : MmioRegion := table[i]

/-- The table with another region in slot `i`. -/
def setSlot (table : MmioTable) (i : Fin maxMmioRegionCount) (region : MmioRegion) : MmioTable :=
  table.set i region

@[simp] theorem slot_setSlot (table : MmioTable) (i : Fin maxMmioRegionCount)
    (region : MmioRegion) : (table.setSlot i region).slot i = region := Vector.getElem_set_self ..

theorem slot_setSlot_ne (table : MmioTable) {i j : Fin maxMmioRegionCount} (region : MmioRegion)
    (h : j ≠ i) : (table.setSlot i region).slot j = table.slot j :=
  Vector.getElem_set_ne _ _ fun he => h (Fin.ext he.symm)

@[simp] theorem slot_zero (i : Fin maxMmioRegionCount) : zero.slot i =
    { id := 0, baseAddress := 0, highAddress := 0, writeHandler := none, readHandler := none,
      data := 0 } := Vector.getElem_replicate ..

theorem toList_setSlot (table : MmioTable) (i : Fin maxMmioRegionCount) (region : MmioRegion) :
    (table.setSlot i region).toList = table.toList.set i region := Vector.toList_set ..

/-- The first available slot. -/
def firstAvailable (table : MmioTable) : Option (Fin maxMmioRegionCount) :=
  (List.finRange maxMmioRegionCount).find? fun i => table[i].id = -1

end MmioTable

/-- `mmio_init`. -/
def mmioInit (table : MmioTable) : MmioTable := table.map fun region => { region with id := -1 }

@[simp] theorem MmioTable.slot_mmioInit (table : MmioTable) (i : Fin maxMmioRegionCount) :
    (mmioInit table).slot i = { table.slot i with id := -1 } := Vector.getElem_map ..

/-- `mmio_register`: the map, the table, the caller's region and what it returns. -/
def mmioRegister (vm : Vm) (table : MmioTable) (region : MmioRegion) (host : HostAnswers) :
    Vm × MmioTable × MmioRegion × Int32 :=
  match memoryAlloc vm region.baseAddress (region.highAddress - region.baseAddress) memoryMmio
    host with
  | (vm, false) => (vm, table, region, -1)
  | (vm, true) =>
      match table.firstAvailable with
      | some i =>
          let region := { region with id := Int32.ofNat i }
          (vm, table.set i region, region, Int32.ofNat i)
      | none => (vm, table, region, -1)

/-- `mmio_unregister`. -/
def mmioUnregister (table : MmioTable) (id : Int32) : Except Fault MmioTable :=
  if id < Int32.ofNat maxMmioRegionCount then
    if h : 0 ≤ id.toInt ∧ id.toInt.toNat < maxMmioRegionCount then
      .ok (table.set id.toInt.toNat { table[id.toInt.toNat] with id := -1 })
    else
      .error .outOfBounds
  else
    .ok table

/-- A call of a write handler. -/
structure MmioCall where
  handler : UInt64
  region : MmioRegion
  address : UInt64
  data : Vector UInt8 8
  len : UInt32
  arg : UInt64
  deriving DecidableEq

/-- The call that `mmio_handle_write` makes for one slot, if it makes one. -/
def MmioRegion.writeCall (region : MmioRegion) (address : UInt64) (data : Vector UInt8 8)
    (len : UInt32) : Option MmioCall :=
  if region.baseAddress ≤ address ∧ region.highAddress > address then
    region.writeHandler.map fun handler =>
      { handler, region, address, data, len, arg := region.data }
  else
    none

/-- `mmio_handle_write`: the calls it makes, in order. -/
def mmioHandleWrite (table : MmioTable) (address : UInt64) (data : Vector UInt8 8)
    (len : UInt32) : List MmioCall :=
  (List.finRange maxMmioRegionCount).filterMap fun i => table[i].writeCall address data len

theorem mmioHandleWrite_slots (table : MmioTable) (address : UInt64) (data : Vector UInt8 8)
    (len : UInt32) : mmioHandleWrite table address data len =
      (List.finRange maxMmioRegionCount).filterMap fun i =>
        (table.slot i).writeCall address data len := rfl

end BlackHV
