import Pager.Page.Basic

/-!
The frame table: an arena of the physical frames that hold user pages, and the
clock hand that looks for a page to evict. A frame and its page refer to each
other, and `bind` and `unbind` change both ends together. Vacated arena slots
are used again, the latest first.
-/
namespace Pager

/-- The page that a frame backs. -/
structure Owner where
  space : SpaceId
  page : VirtualAddress
deriving DecidableEq, Repr

structure Frame where
  address : PhysicalAddress
  owner : Option Owner := none
  /-- A system call uses the frame, so it must stay where it is. -/
  pinned : Bool := false
deriving DecidableEq, Repr

structure FrameTable where
  slots : List (Option Frame) := []
  /-- Indices of the empty slots; the head is filled next. -/
  vacant : List FrameId := []
  hand : Nat := 0
  live : Nat := 0

namespace FrameTable

def empty : FrameTable := {}

/-- Tracks a frame fresh from the pool, unbound and unpinned. -/
def insert (t : FrameTable) (address : PhysicalAddress) : FrameId × FrameTable :=
  match t.vacant with
  | id :: rest =>
    (id, { t with slots := t.slots.set id (some { address }), vacant := rest, live := t.live + 1 })
  | [] => (t.slots.length, { t with slots := t.slots ++ [some { address }], live := t.live + 1 })

def get? (t : FrameTable) (id : FrameId) : Option Frame := (t.slots[id]?).join

def get (t : FrameTable) (id : FrameId) : Except Bug Frame :=
  match t.get? id with
  | none => .error (.untracked id)
  | some frame => .ok frame

def put (t : FrameTable) (id : FrameId) (frame : Frame) : FrameTable :=
  { t with slots := t.slots.set id (some frame) }

/-- Stops tracking an unbound frame and yields its address. -/
def remove (t : FrameTable) (id : FrameId) : Except Bug (PhysicalAddress × FrameTable) :=
  match t.get? id with
  | none => .error (.untrackedFreed id)
  | some frame =>
    if frame.owner.isSome then .error (.freedWhileBound id)
    else .ok (frame.address,
      { t with slots := t.slots.set id none, vacant := id :: t.vacant, live := t.live - 1 })

/-- Links a free frame and a page that has none. -/
def bind (t : FrameTable) (id : FrameId) (owner : Owner) (page : Page) :
    Except Bug (FrameTable × Page) := do
  if page.address ≠ owner.page then throw .foreignOwner
  if let some resident := page.frame then throw (.alreadyResident page.address.value resident)
  let frame ← t.get id
  if frame.owner.isSome then throw (.alreadyBound id)
  return (t.put id { frame with owner := some owner }, { page with frame := some id })

/-- Breaks the link between a frame and its page, and unpins the frame. -/
def unbind (t : FrameTable) (id : FrameId) (page : Page) : Except Bug (FrameTable × Page) := do
  if page.frame ≠ some id then throw (.notResident page.address.value id)
  let frame ← t.get id
  match frame.owner with
  | none => throw (.notBound id)
  | some owner =>
    if owner.page ≠ page.address then throw (.backsOther id)
    return (t.put id { frame with owner := none, pinned := false }, { page with frame := none })

def setPinned (t : FrameTable) (id : FrameId) (pinned : Bool) : Except Bug FrameTable := do
  let frame ← t.get id
  return t.put id { frame with pinned }

/-- The arena indices in cyclic order from the hand. -/
def order (t : FrameTable) : List FrameId :=
  (List.range t.slots.length).map fun i => (t.hand + i) % t.slots.length

/-- Moves the hand past the next frame and yields that frame. -/
def advance (t : FrameTable) : Option FrameId × FrameTable :=
  match t.order.find? fun id => (t.get? id).isSome with
  | none => (none, t)
  | some id => (some id, { t with hand := id + 1 })

theorem get?_put (t : FrameTable) (id : FrameId) (frame : Frame) (other : FrameId) :
    (t.put id frame).get? other =
      if other = id ∧ id < t.slots.length then some frame else t.get? other := by
  unfold get? put
  by_cases h : other = id
  · subst h
    by_cases hlt : other < t.slots.length
    · simp [hlt]
    · simp [hlt]
  · simp [h, Ne.symm h]

theorem lt_length_of_get? {t : FrameTable} {id : FrameId} {frame : Frame}
    (h : t.get? id = some frame) : id < t.slots.length := by
  unfold get? at h
  rcases Nat.lt_or_ge id t.slots.length with hlt | hge
  · exact hlt
  · simp [List.getElem?_eq_none hge] at h

theorem get_eq_ok {t : FrameTable} {id : FrameId} {frame : Frame} :
    t.get id = .ok frame ↔ t.get? id = some frame := by
  unfold get
  split <;> simp [*]

/-- The hand stops at a live frame, just before where it points next. -/
theorem advance_eq_some {t next : FrameTable} {id : FrameId}
    (h : t.advance = (some id, next)) :
    (t.get? id).isSome = true ∧ next = { t with hand := id + 1 } := by
  unfold advance at h
  split at h
  · simp at h
  · rename_i found hf
    simp only [Prod.mk.injEq, Option.some.injEq] at h
    obtain ⟨rfl, rfl⟩ := h
    exact ⟨List.find?_some (p := fun id => (t.get? id).isSome) hf, rfl⟩

end FrameTable
end Pager
