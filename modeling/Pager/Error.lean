/-!
What can go wrong when a fault is resolved or an address space is managed. A
failure refuses one request, at worst for good, and so ends the process that
asked; the state it leaves behind is still good for everybody else.
-/
namespace Pager

/-- Failures of a backing store, a swap disk or a file. -/
inductive StoreError where
  /-- The store rejected the request. -/
  | device
  /-- Fewer bytes were read than the page needs. -/
  | shortRead
  /-- Fewer bytes were written than the page holds. -/
  | shortWrite
deriving DecidableEq, Repr

inductive PagerError where
  | nullAddress
  | kernelAddress
  | notMapped
  /-- A write to a page registered read-only. -/
  | readOnly
  /-- A write to a page that is present and write-protected. -/
  | writeProtected
  | alreadyMapped
  | misaligned
  /-- A length of zero, an empty file, or a range that leaves user space. -/
  | invalidLength
  | overlap
  | noBackingFile
  | store (cause : StoreError)
  /-- No frame is free and none could be evicted. -/
  | outOfMemory
  /-- An anonymous page had to be evicted and every swap slot is in use. -/
  | swapExhausted
deriving DecidableEq, Repr

namespace StoreError

def all : List StoreError := [device, shortRead, shortWrite]

def name : StoreError → String
  | device => "Device"
  | shortRead => "ShortRead"
  | shortWrite => "ShortWrite"

def message : StoreError → String
  | device => "device error"
  | shortRead => "short read"
  | shortWrite => "short write"

end StoreError

namespace PagerError

def all : List PagerError :=
  [nullAddress, kernelAddress, notMapped, readOnly, writeProtected, alreadyMapped, misaligned,
    invalidLength, overlap, noBackingFile] ++ StoreError.all.map store ++
    [outOfMemory, swapExhausted]

def name : PagerError → String
  | nullAddress => "NullAddress"
  | kernelAddress => "KernelAddress"
  | notMapped => "NotMapped"
  | readOnly => "ReadOnly"
  | writeProtected => "WriteProtected"
  | alreadyMapped => "AlreadyMapped"
  | misaligned => "Misaligned"
  | invalidLength => "InvalidLength"
  | overlap => "Overlap"
  | noBackingFile => "NoBackingFile"
  | store cause => s!"Io({cause.name})"
  | outOfMemory => "OutOfMemory"
  | swapExhausted => "SwapExhausted"

def message : PagerError → String
  | nullAddress => "null address"
  | kernelAddress => "kernel address accessed from user mode"
  | notMapped => "address not mapped"
  | readOnly => "write to read-only page"
  | writeProtected => "write to write-protected page"
  | alreadyMapped => "page already mapped"
  | misaligned => "address not page-aligned"
  | invalidLength => "invalid mapping length"
  | overlap => "mapping overlaps existing pages"
  | noBackingFile => "file-backed page without a file"
  | store cause => s!"backing store error: {cause.message}"
  | outOfMemory => "out of physical memory"
  | swapExhausted => "swap space exhausted"

/-- Failures of memory pressure rather than of a bad access. -/
def isExhaustion : PagerError → Bool
  | outOfMemory | swapExhausted => true
  | _ => false

end PagerError

theorem StoreError.mem_all (e : StoreError) : e ∈ StoreError.all := by
  cases e <;> decide

theorem PagerError.mem_all (e : PagerError) : e ∈ PagerError.all := by
  rcases e with _ | _ | _ | _ | _ | _ | _ | _ | _ | _ | (_ | _ | _) | _ | _ <;> decide

end Pager
