import ProtoForge.Guest.Module
import Std.Data.HashMap

/-!
# Linear memory

A memory of a guest is a number of pages of 64 KiB. Bytes that were never
written are zero. An access that does not lie inside the pages has no result.
-/
namespace ProtoForge.Guest

/-- The bytes of a page. -/
def pageSize : Nat := 65536

/-- The bytes written so far, the pages, and the most pages that there may be. -/
structure Memory where
  bytes : Std.HashMap Nat UInt8
  pages : Nat
  maximum : Nat

namespace Memory

/-- A memory of zeros. -/
def ofPages (pages maximum : Nat) : Memory := ⟨{}, pages, maximum⟩

/-- The number of bytes. -/
def size (m : Memory) : Nat := m.pages * pageSize

/-- The byte at an address inside the memory. -/
def at_ (m : Memory) (address : Nat) : UInt8 := m.bytes.getD address 0

/-- The bytes from an address on. -/
def read? (m : Memory) (address count : Nat) : Option Bytes :=
  if address + count ≤ m.size then some ((List.range count).map fun i => m.at_ (address + i))
  else none

/-- The memory with bytes written from an address on. -/
def write? (m : Memory) (address : Nat) (b : Bytes) : Option Memory :=
  if address + b.length ≤ m.size then
    let bytes := (b.foldl (fun (acc : Std.HashMap Nat UInt8 × Nat) x =>
      (acc.1.insert acc.2 x, acc.2 + 1)) (m.bytes, address)).1
    some { m with bytes := bytes }
  else none

/-- The number spelled by four bytes, least significant first. -/
def wordOf (b : Bytes) : UInt32 := b.foldr (fun x n => (n <<< 8) ||| x.toUInt32) 0

/-- The four bytes of a number, least significant first. -/
def bytesOf (w : UInt32) : Bytes := [w.toUInt8, (w >>> 8).toUInt8, (w >>> 16).toUInt8, (w >>> 24).toUInt8]

/-- The number at an address. -/
def readWord? (m : Memory) (address : Nat) : Option UInt32 := (m.read? address 4).map wordOf

/-- The memory with a number written at an address. -/
def writeWord? (m : Memory) (address : Nat) (w : UInt32) : Option Memory :=
  m.write? address (bytesOf w)

/-- The memory with more pages, if there may be as many. -/
def grow? (m : Memory) (delta : Nat) : Option Memory :=
  if m.pages + delta ≤ m.maximum then some { m with pages := m.pages + delta } else none

end Memory

end ProtoForge.Guest
