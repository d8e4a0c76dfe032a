import Pager.Layout
import Pager.Word

/-!
Physical and virtual addresses. The kind of an address says which machine words
are addresses of that kind: a physical one fits its width, and bits 48 to 63 of a
virtual one repeat bit 47, which leaves a low and a high range with a hole
between them. `make` refuses every other word; rounding down and `subOrNull`
build their result without asking again.
-/
namespace Pager

inductive AddressKind where
  | virtual
  | physical (width : Nat)
deriving DecidableEq, Repr

namespace AddressKind

/-- The words that are addresses of this kind. -/
def Admits : AddressKind → Nat → Prop
  | .virtual, n => n < 1 <<< 47 ∨ 1 <<< 64 - 1 <<< 47 ≤ n ∧ n < 1 <<< 64
  | .physical width, n => n < 1 <<< width

instance (kind : AddressKind) (n : Nat) : Decidable (kind.Admits n) := by
  cases kind <;> unfold Admits <;> infer_instance

def refusal : AddressKind → Bug
  | .virtual => .notCanonical
  | .physical _ => .physicalTooWide

def name : AddressKind → String
  | .virtual => "VirtualAddress"
  | .physical _ => "PhysicalAddress"

end AddressKind

@[ext]
structure Address (kind : AddressKind) where
  value : Nat
deriving DecidableEq, Repr

abbrev VirtualAddress := Address .virtual

/-- Physical addresses of the emulated memory stay below 4 GiB. -/
abbrev PhysicalAddress := Address (.physical 32)

namespace Address

variable {kind : AddressKind}

def make (kind : AddressKind) (n : Nat) : Except Bug (Address kind) :=
  if kind.Admits n then .ok ⟨n⟩ else .error kind.refusal

def isNull (a : Address kind) : Bool := a.value == 0

def pageOffset (a : Address kind) : Nat := a.value % pageSize

def isPageAligned (a : Address kind) : Bool := a.pageOffset == 0

/-- The first byte of the page that holds `a`. -/
def pageBase (a : Address kind) : Address kind := ⟨a.value - a.pageOffset⟩

/-- The least page boundary that is not below `a`. The end of the following page must still fit
a word, so the last page of all has no such boundary, not even its own first byte. -/
def pageCeil (a : Address kind) : Except Bug (Address kind) := do
  let raised := (← wordAdd a.value pageSize) - 1
  make kind (raised - raised % pageSize)

def add (a : Address kind) (n : Nat) : Except Bug (Address kind) := do
  make kind (← wordAdd a.value n)

def sub (a : Address kind) (n : Nat) : Except Bug (Address kind) := do
  make kind (← wordSub a.value n)

def isKernel (a : VirtualAddress) : Bool := kernelBase ≤ a.value

/-- The sum, unless it overflows or is no address. -/
def add? (a : VirtualAddress) (n : Nat) : Option VirtualAddress :=
  if a.value + n < 1 <<< 64 ∧ AddressKind.virtual.Admits (a.value + n) then
    some ⟨a.value + n⟩
  else none

/-- The difference, or the null address where it would be negative. -/
def subOrNull (a : VirtualAddress) (n : Nat) : VirtualAddress := ⟨a.value - n⟩

def text (a : Address kind) : String := hex a.value

/-- The address together with its kind. -/
def detail (a : Address kind) : String := s!"{kind.name}({hex a.value})"

theorem make_eq_ok {n : Nat} {a : Address kind} :
    make kind n = .ok a ↔ kind.Admits n ∧ a = ⟨n⟩ := by
  unfold make
  split
  · simp [*, eq_comm]
  · simp [*]

theorem pageBase_value (a : Address kind) :
    a.pageBase.value = a.value / pageSize * pageSize := by
  simp only [pageBase, pageOffset]
  have := Nat.div_add_mod a.value pageSize
  rw [Nat.mul_comm] at this
  omega

theorem isPageAligned_iff {a : Address kind} :
    a.isPageAligned = true ↔ a.value % pageSize = 0 := by
  rw [isPageAligned, beq_iff_eq, pageOffset]

theorem isPageAligned_pageBase (a : Address kind) : a.pageBase.isPageAligned = true := by
  simp [isPageAligned, pageOffset, pageBase_value]

theorem pageBase_of_isPageAligned {a : Address kind} (h : a.isPageAligned = true) :
    a.pageBase = a := by
  have : a.pageOffset = 0 := by simpa [isPageAligned] using h
  simp [pageBase, this]

@[simp] theorem pageBase_pageBase (a : Address kind) : a.pageBase.pageBase = a.pageBase :=
  pageBase_of_isPageAligned a.isPageAligned_pageBase

end Address
end Pager
