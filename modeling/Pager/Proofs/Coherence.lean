import Pager.Proofs.Arena
import Pager.Proofs.Links
import Pager.Proofs.Moves

/-!
The joint invariant of pages, frames, directories, pool and swap disk. Each move
preserves it, so it holds at every moment of every operation; what is promised of
a machine between two operations is read off it with no frame in hand.
-/
namespace Pager

open Function

/-- The slot recorded by the page at a place. -/
def slotsOf (pages : Place → Option Page) (pl : Place) : Option SwapSlot := (pages pl).bind Page.slot

/-- Only file-backed pages belong to mappings. -/
def Typed (pages : Place → Option Page) : Prop :=
  ∀ pl p, pages pl = some p → p.mapping.isSome = true → p.type = .fileBacked

section Pages

variable {pages : Place → Option Page} {pl : Place} {page : Option Page}

theorem slotsOf_update : slotsOf (update pages pl page) =
    update (slotsOf pages) pl (page.bind Page.slot) := by
  funext other
  simp only [slotsOf, update_apply]
  split <;> rfl

theorem slotsOf_update_of_eq (h : page.bind Page.slot = slotsOf pages pl) :
    slotsOf (update pages pl page) = slotsOf pages := by
  rw [slotsOf_update, h, update_eq_self]

theorem Typed.update (h : Typed pages)
    (hp : ∀ p, page = some p → p.mapping.isSome = true → p.type = .fileBacked) :
    Typed (update pages pl page) := by
  intro other p hother
  rw [update_apply] at hother
  split at hother
  · exact hp p hother
  · exact h other p hother

end Pages

structure Coherent (m : Moment) : Prop where
  pool : m.machine.pool.Sound
  frames : m.machine.frames.Sound
  swap : m.machine.swap.Sound
  linked : Linked (pageAt m.machine.spaces) (entryAt m.machine.spaces) m.machine.frames.get? m.held
  backed : Backed m.machine.frames.get? m.machine.pool.isTaken
  parked : Parked (slotsOf (pageAt m.machine.spaces)) m.machine.swap.isUsed
  typed : Typed (pageAt m.machine.spaces)
  fresh : ∀ id, m.machine.nextSpace ≤ id → m.machine.spaces.get? id = none

namespace Coherent

variable {s : Machine} {held : Option FrameId} {id : SpaceId} {sp u : Space} {pl : Place}
  {f : FrameId} {fr : Frame} {p : Page}

theorem fresh_insert {spaces : Table Space} {next : SpaceId}
    (h : ∀ id, next ≤ id → spaces.get? id = none) (hs : spaces.get? id = some sp) (after : Space) :
    ∀ other, next ≤ other → (spaces.insert id after).get? other = none := by
  intro other hle
  rw [Table.get?_insert, if_neg, h other hle]
  rintro rfl
  rw [h other hle] at hs
  cases hs

theorem pageAt_eq (hs : s.spaces.get? pl.space = some sp)
    (hp : sp.pages.pages.get? pl.key = some p) : pageAt s.spaces pl = some p :=
  (pageAt_of_get? hs pl.key).trans hp

/-- The spaces with one page changed or taken away. -/
theorem pageAt_put (hs : s.spaces.get? pl.space = some sp) (page : Page)
    (hp : u.pages = ⟨sp.pages.pages.insert pl.key page⟩) :
    pageAt (s.spaces.insert pl.space u) = update (pageAt s.spaces) pl (some page) :=
  pageAt_insert hs fun other => by rw [hp, Table.get?_insert]

theorem pageAt_erase (hs : s.spaces.get? pl.space = some sp)
    (hp : u.pages = ⟨sp.pages.pages.erase pl.key⟩) :
    pageAt (s.spaces.insert pl.space u) = update (pageAt s.spaces) pl none :=
  pageAt_insert hs fun other => by rw [hp, Table.get?_erase]

theorem entryAt_unmap (hs : s.spaces.get? pl.space = some sp)
    (hd : u.directory = sp.directory.unmap pl.address) :
    entryAt (s.spaces.insert pl.space u) = update (entryAt s.spaces) pl none :=
  entryAt_insert hs fun other => by rw [hd]; exact Table.get?_erase ..

/-- A change that no part of the invariant looks at. -/
theorem of_space (h : Coherent ⟨s, held⟩) (hs : s.spaces.get? id = some sp)
    (hp : u.pages = sp.pages) (hd : u.directory = sp.directory) :
    Coherent ⟨{ s with spaces := s.spaces.insert id u }, held⟩ where
  pool := h.pool
  frames := h.frames
  swap := h.swap
  linked := by
    show Linked (pageAt (s.spaces.insert id u)) (entryAt (s.spaces.insert id u)) _ _
    rw [pageAt_insert_of_eq hs hp, entryAt_insert_of_eq hs hd]
    exact h.linked
  backed := h.backed
  parked := by
    show Parked (slotsOf (pageAt (s.spaces.insert id u))) _
    rw [pageAt_insert_of_eq hs hp]
    exact h.parked
  typed := by
    show Typed (pageAt (s.spaces.insert id u))
    rw [pageAt_insert_of_eq hs hp]
    exact h.typed
  fresh := fresh_insert h.fresh hs u

theorem turn (h : Coherent ⟨s, held⟩) :
    Coherent ⟨{ s with frames := s.frames.advance.2 }, held⟩ where
  pool := h.pool
  frames := FrameTable.sound_advance h.frames
  swap := h.swap
  linked := by
    show Linked _ _ s.frames.advance.2.get? _
    rw [FrameTable.get?_advance]
    exact h.linked
  backed := by
    show Backed s.frames.advance.2.get? _
    rw [FrameTable.get?_advance]
    exact h.backed
  parked := h.parked
  typed := h.typed
  fresh := h.fresh

theorem take (h : Coherent ⟨s, none⟩) {address : PhysicalAddress} {pool : FramePool}
    (ht : s.pool.take? = some (address, pool)) :
    Coherent ⟨{ s with pool, frames := (s.frames.insert address).2 },
      some (s.frames.insert address).1⟩ := by
  obtain ⟨n, rfl, hfree, htaken, -, hpool⟩ := FramePool.take?_spec h.pool ht
  obtain ⟨hnone, hget, hframes⟩ := FrameTable.insert_spec h.frames (FramePool.addressOf n)
  refine ⟨hpool, hframes, h.swap, ?_, ?_, h.parked, h.typed, h.fresh⟩
  · show Linked _ _ (s.frames.insert (FramePool.addressOf n)).2.get? _
    rw [hget]
    exact h.linked.take hnone _
  · show Backed (s.frames.insert (FramePool.addressOf n)).2.get? pool.isTaken
    rw [hget, htaken]
    exact h.backed.take hnone hfree

theorem giveBack (h : Coherent ⟨s, some f⟩) {address : PhysicalAddress} {frames : FrameTable}
    {pool : FramePool} (hr : s.frames.remove f = .ok (address, frames))
    (hg : s.pool.giveBack address = .ok pool) : Coherent ⟨{ s with pool, frames }, none⟩ := by
  obtain ⟨⟨fr, hf, -, ha⟩, hget, hframes⟩ := FrameTable.remove_spec h.frames hr
  obtain ⟨n, hn, -, htaken, -, hpool⟩ := FramePool.giveBack_spec h.pool hg
  refine ⟨hpool, hframes, h.swap, ?_, ?_, h.parked, h.typed, h.fresh⟩
  · show Linked _ _ frames.get? _
    rw [hget]
    exact h.linked.release
  · show Backed frames.get? pool.isTaken
    rw [hget, htaken]
    exact h.backed.release hf (ha.trans hn)

/-- Writing to a frame changes bytes only. -/
theorem write (h : Coherent ⟨s, held⟩) {address : PhysicalAddress} {start : Nat} {bytes : Bytes}
    {pool : FramePool} (hw : s.pool.write address start bytes = .ok pool) :
    Coherent ⟨{ s with pool }, held⟩ := by
  obtain ⟨-, htaken, hpool⟩ := FramePool.write_spec h.pool hw
  refine ⟨hpool, h.frames, h.swap, h.linked, ?_, h.parked, h.typed, h.fresh⟩
  show Backed _ pool.isTaken
  rw [htaken]
  exact h.backed

theorem mark (h : Coherent ⟨s, held⟩) (hs : s.spaces.get? id = some sp) (a : VirtualAddress)
    (flag : PageFlag) (up : Bool) (hp : flag ≠ .present) (hw : flag ≠ .writable) :
    Coherent ⟨{ s with
      spaces := s.spaces.insert id { sp with directory := sp.directory.set a flag up } }, held⟩ := by
  have hpages := pageAt_insert_of_eq (u := { sp with directory := sp.directory.set a flag up })
    hs rfl
  refine ⟨h.pool, h.frames, h.swap, ?_, h.backed, ?_, ?_, fresh_insert h.fresh hs _⟩
  · show Linked (pageAt (s.spaces.insert id _)) (entryAt (s.spaces.insert id _)) _ _
    rw [hpages]
    have hentry := entryAt_of_get? hs a.value
    cases he : sp.directory.entries.get? a.value with
    | none =>
      rw [entryAt_insert hs (k := a.value) (e := none), ← he, ← hentry, update_eq_self]
      · exact h.linked
      · intro other
        refine (Table.get?_modify ..).trans ?_
        split
        · rename_i eq
          rw [eq, he]
          rfl
        · rfl
    | some e =>
      rw [entryAt_insert hs (k := a.value) (e := some (e.setFlags (e.flags.set flag up)))]
      · exact h.linked.mark (hentry.trans he) fun _ _ hshow => hshow.setFlags flag up hp hw
      · intro other
        refine (Table.get?_modify ..).trans ?_
        split
        · rename_i eq
          rw [eq, he]
          rfl
        · rfl
  · show Parked (slotsOf (pageAt (s.spaces.insert id _))) _
    rw [hpages]
    exact h.parked
  · show Typed (pageAt (s.spaces.insert id _))
    rw [hpages]
    exact h.typed

theorem pin (h : Coherent ⟨s, held⟩) (hf : s.frames.get? f = some fr) (pinned : Bool) :
    Coherent ⟨{ s with frames := s.frames.put f { fr with pinned } }, held⟩ := by
  obtain ⟨hget, hframes⟩ := FrameTable.put_spec h.frames (by rw [hf]; rfl) { fr with pinned }
  refine ⟨h.pool, hframes, h.swap, ?_, ?_, h.parked, h.typed, h.fresh⟩
  · show Linked _ _ (s.frames.put f { fr with pinned }).get? _
    rw [hget]
    exact h.linked.pin hf pinned
  · show Backed (s.frames.put f { fr with pinned }).get? _
    rw [hget]
    exact h.backed.change hf rfl

/-- The frame of a page comes to hand, and the page may change its kind. -/
theorem unseat (h : Coherent ⟨s, none⟩) (hf : s.frames.get? f = some fr)
    (hs : s.spaces.get? pl.space = some sp) (hp : sp.pages.pages.get? pl.key = some p)
    (hres : p.frame = some f) {swap : SwapTable} (hswap : swap.Sound) {files : FileStore}
    {page : Page} (hsame : Transfer.SamePage p page)
    (hslot : Parked (update (slotsOf (pageAt s.spaces)) pl page.slot) swap.isUsed) :
    Coherent ⟨{ s with
      swap
      files
      frames := s.frames.put f { fr with owner := none, pinned := false }
      spaces := s.spaces.insert pl.space { sp with
        pages := ⟨sp.pages.pages.insert pl.key { page with frame := none }⟩
        directory := sp.directory.unmap pl.address } }, some f⟩ := by
  have hpage := pageAt_eq hs hp
  obtain ⟨hget, hframes⟩ := FrameTable.put_spec h.frames (by rw [hf]; rfl)
    { fr with owner := none, pinned := false }
  have hpages := pageAt_put (u := { sp with
    pages := ⟨sp.pages.pages.insert pl.key { page with frame := none }⟩
    directory := sp.directory.unmap pl.address }) hs _ rfl
  refine ⟨h.pool, hframes, hswap, ?_, ?_, ?_, ?_, fresh_insert h.fresh hs _⟩
  · show Linked (pageAt (s.spaces.insert pl.space _)) (entryAt (s.spaces.insert pl.space _))
      (s.frames.put f { fr with owner := none, pinned := false }).get? _
    rw [hpages, entryAt_unmap hs rfl, hget]
    exact h.linked.unseat hpage hres hf hsame.address rfl
  · show Backed (s.frames.put f { fr with owner := none, pinned := false }).get? _
    rw [hget]
    exact h.backed.change hf rfl
  · show Parked (slotsOf (pageAt (s.spaces.insert pl.space _))) _
    rw [hpages, slotsOf_update]
    exact hslot
  · show Typed (pageAt (s.spaces.insert pl.space _))
    rw [hpages]
    refine h.typed.update fun q hq hmapped => ?_
    cases hq
    have hmapping := hsame.mapping (h.typed pl p hpage)
    have hmapped' : p.mapping.isSome = true := by rw [← hmapping]; exact hmapped
    exact hsame.type.trans (h.typed pl p hpage hmapped')

theorem seat (h : Coherent ⟨s, some f⟩) (hf : s.frames.get? f = some fr)
    (hs : s.spaces.get? pl.space = some sp) (hp : sp.pages.pages.get? pl.key = some p)
    (habs : p.frame = none) (hinit : p.isInitialized = true) (hslot : p.slot = none)
    {directory : Directory .emulated} {e : PageEntry .emulated}
    (he : e.Shows fr.address p.writable)
    (hd : ∀ other, directory.entries.get? other =
      if other = pl.key then some e else sp.directory.entries.get? other) :
    Coherent ⟨{ s with
      frames := s.frames.put f { fr with owner := some pl.owner }
      spaces := s.spaces.insert pl.space { sp with
        pages := ⟨sp.pages.pages.insert pl.key { p with frame := some f }⟩
        directory } }, none⟩ := by
  have hpage := pageAt_eq hs hp
  obtain ⟨hget, hframes⟩ := FrameTable.put_spec h.frames (by rw [hf]; rfl)
    { fr with owner := some pl.owner }
  have hpages := pageAt_put (u := { sp with
    pages := ⟨sp.pages.pages.insert pl.key { p with frame := some f }⟩
    directory }) hs _ rfl
  have hentries := entryAt_insert (u := { sp with
    pages := ⟨sp.pages.pages.insert pl.key { p with frame := some f }⟩
    directory }) hs hd
  refine ⟨h.pool, hframes, h.swap, ?_, ?_, ?_, ?_, fresh_insert h.fresh hs _⟩
  · show Linked (pageAt (s.spaces.insert pl.space _)) (entryAt (s.spaces.insert pl.space _))
      (s.frames.put f { fr with owner := some pl.owner }).get? _
    rw [hpages, hentries, hget]
    exact h.linked.seat hpage habs hf rfl rfl hinit hslot he
  · show Backed (s.frames.put f { fr with owner := some pl.owner }).get? _
    rw [hget]
    exact h.backed.change hf rfl
  · show Parked (slotsOf (pageAt (s.spaces.insert pl.space _))) _
    rw [hpages, slotsOf_update_of_eq]
    · exact h.parked
    · rw [slotsOf, hpage]
      rfl
  · show Typed (pageAt (s.spaces.insert pl.space _))
    rw [hpages]
    refine h.typed.update fun q hq hmapped => ?_
    cases hq
    exact h.typed pl p hpage hmapped

/-- What initializers were run has no say in the order of things. -/
theorem account (h : Coherent ⟨s, held⟩) (inits : List (Owner × Initialization)) :
    Coherent ⟨{ s with inits }, held⟩ :=
  ⟨h.pool, h.frames, h.swap, h.linked, h.backed, h.parked, h.typed, h.fresh⟩

/-- The contents of a page come into the frame in hand; the page is not mapped yet. -/
theorem fill (h : Coherent ⟨s, held⟩) (hs : s.spaces.get? pl.space = some sp)
    (hp : sp.pages.pages.get? pl.key = some p) (habs : p.frame = none) {bytes : Bytes}
    {t : Transfer} (hb : bytes.length = pageSize)
    (ht : Transfer.Populated ⟨p, bytes, s.swap, s.files, []⟩ t) {start : Nat}
    {address : PhysicalAddress} {pool : FramePool}
    (hw : s.pool.write address start t.frame = .ok pool) :
    Coherent ⟨{ s with
      swap := t.swap
      files := t.files
      pool
      spaces := s.spaces.insert pl.space { sp with
        pages := ⟨sp.pages.pages.insert pl.key t.page⟩ } }, held⟩ := by
  have hpage := pageAt_eq hs hp
  obtain ⟨hsame, -, hslot, -, -, hcase⟩ := ht.spec h.swap hb
  obtain ⟨-, htaken, hpool⟩ := FramePool.write_spec h.pool hw
  have hpages := pageAt_put (u := { sp with
    pages := ⟨sp.pages.pages.insert pl.key t.page⟩ }) hs _ rfl
  have hentries := entryAt_insert_of_eq (u := { sp with
    pages := ⟨sp.pages.pages.insert pl.key t.page⟩ }) hs rfl
  refine ⟨hpool, h.frames, ?_, ?_, ?_, ?_, ?_, fresh_insert h.fresh hs _⟩
  · rcases hcase with ⟨-, hswap⟩ | ⟨n, -, hrel⟩
    · rw [hswap]
      exact h.swap
    · exact (SwapTable.release_spec h.swap hrel).1
  · show Linked (pageAt (s.spaces.insert pl.space _)) (entryAt (s.spaces.insert pl.space _)) _ _
    rw [hpages, hentries]
    refine h.linked.change (fun q hq => ?_) (fun q hq => ?_)
    · rw [hpage] at hq
      cases hq
      exact habs
    · cases hq
      obtain ⟨hkeyed, haligned⟩ := h.linked.keyed hpage
      exact ⟨hsame.frame.trans habs, hsame.address.trans hkeyed, haligned⟩
  · show Backed _ pool.isTaken
    rw [htaken]
    exact h.backed
  · show Parked (slotsOf (pageAt (s.spaces.insert pl.space _))) t.swap.isUsed
    rw [hpages, slotsOf_update, Option.bind_some, hslot]
    rcases hcase with ⟨hnone, hswap⟩ | ⟨n, hn, hrel⟩
    · rw [hswap, ← hnone]
      have hsame : p.slot = slotsOf (pageAt s.spaces) pl := by
        rw [slotsOf, hpage]
        rfl
      rw [hsame, update_eq_self]
      exact h.parked
    · obtain ⟨-, -, hused, -⟩ := SwapTable.release_spec h.swap hrel
      rw [hused]
      refine h.parked.unpark ?_
      rw [slotsOf, hpage]
      exact hn
  · show Typed (pageAt (s.spaces.insert pl.space _))
    rw [hpages]
    refine h.typed.update fun q hq hmapped => ?_
    cases hq
    rw [hsame.mapping (h.typed pl p hpage)] at hmapped
    exact hsame.type.trans (h.typed pl p hpage hmapped)

theorem frame_lt (h : Coherent ⟨s, held⟩) (hf : s.frames.get? f = some fr) :
    fr.address.value / pageSize < s.pool.size ∧ fr.address.value < 2 ^ 32 := by
  obtain ⟨n, hn, ha⟩ := h.backed.address_taken hf
  rw [ha, FramePool.value_addressOf_div]
  exact ⟨h.pool.lt_of_isTaken hn, h.pool.addressOf_lt hn⟩

theorem length_frame (h : Coherent ⟨s, held⟩) (hf : s.frames.get? f = some fr) :
    (s.pool.bytesAt fr.address).length = pageSize := h.pool.length_bytesAt (h.frame_lt hf).1

/-- The page that a frame backs lies in it. -/
theorem resident_of_owner (h : Coherent ⟨s, held⟩) (hf : s.frames.get? f = some fr)
    (ho : fr.owner = some pl.owner) (hs : s.spaces.get? pl.space = some sp)
    (hp : sp.pages.pages.get? pl.key = some p) : p.frame = some f := by
  obtain ⟨q, hq, hres⟩ := h.linked.owner_page hf ho
  have hpage := pageAt_eq hs hp
  have hsame : pageAt s.spaces pl = some q := hq
  rw [hpage] at hsame
  cases hsame
  exact hres

theorem evict (h : Coherent ⟨s, none⟩) {t : Transfer} {dirty : Bool}
    (hf : s.frames.get? f = some fr) (ho : fr.owner = some pl.owner)
    (hs : s.spaces.get? pl.space = some sp) (hp : sp.pages.pages.get? pl.key = some p)
    (hout : Transfer.evict dirty ⟨p, s.pool.bytesAt fr.address, s.swap, s.files, []⟩ =
      .ok (.ok (), t)) :
    Coherent ⟨{ s with
      swap := t.swap
      files := t.files
      frames := s.frames.put f { fr with owner := none, pinned := false }
      spaces := s.spaces.insert pl.space { sp with
        pages := ⟨sp.pages.pages.insert pl.key { t.page with frame := none }⟩
        directory := sp.directory.unmap pl.address } }, some f⟩ := by
  have hres := h.resident_of_owner hf ho hs hp
  have hpage := pageAt_eq hs hp
  obtain ⟨-, hslot⟩ := h.linked.ready hpage hres
  have hnone : slotsOf (pageAt s.spaces) pl = none := by
    rw [slotsOf, hpage]
    exact hslot
  cases Transfer.evict_eq_ok hout with
  | @parked n swap hkind hswap =>
    obtain ⟨hsound, -, hcase⟩ := SwapTable.swapOut_spec h.swap hswap
    rcases hcase with ⟨m, hm, hfree, hused, -⟩ | ⟨e, he, -⟩
    · cases hm
      refine h.unseat hf hs hp hres hsound (.slot hkind (some n)) ?_
      show Parked (update (slotsOf (pageAt s.spaces)) pl (some n)) swap.isUsed
      rw [hused]
      exact h.parked.park hnone hfree
    · cases he
  | filed hkind htraffic =>
    refine h.unseat hf hs hp hres h.swap .refl ?_
    show Parked (update (slotsOf (pageAt s.spaces)) pl p.slot) s.swap.isUsed
    rw [hslot, ← hnone, update_eq_self]
    exact h.parked

theorem spare (h : Coherent ⟨s, held⟩) {t : Transfer} {dirty : Bool} {bytes : Bytes}
    {e : PagerError} (hout : Transfer.evict dirty ⟨p, bytes, s.swap, s.files, []⟩ =
      .ok (.error e, t)) : Coherent ⟨{ s with swap := t.swap, files := t.files }, held⟩ := by
  cases Transfer.evict_eq_ok hout with
  | @kept e swap hkind hswap =>
    obtain ⟨hsound, -, hcase⟩ := SwapTable.swapOut_spec h.swap hswap
    rcases hcase with ⟨m, hm, -⟩ | ⟨e, -, hused⟩
    · cases hm
    · refine ⟨h.pool, h.frames, hsound, h.linked, h.backed, ?_, h.typed, h.fresh⟩
      show Parked _ swap.isUsed
      rw [hused]
      exact h.parked
  | filed hkind htraffic =>
    exact ⟨h.pool, h.frames, h.swap, h.linked, h.backed, h.parked, h.typed, h.fresh⟩

theorem populate (h : Coherent ⟨s, some f⟩) {t : Transfer} {pool : FramePool}
    {directory : Directory .emulated}
    (hf : s.frames.get? f = some fr) (hs : s.spaces.get? pl.space = some sp)
    (hp : sp.pages.pages.get? pl.key = some p) (habs : p.frame = none)
    (hfill : Transfer.populate ⟨p, s.pool.bytesAt fr.address, s.swap, s.files, []⟩ =
      .ok (.ok (), t))
    (hw : s.pool.write fr.address 0 t.frame = .ok pool)
    (hmap : sp.directory.map pl.address fr.address p.writable = .ok directory) :
    Coherent ⟨{ s with
      swap := t.swap
      files := t.files
      pool
      frames := s.frames.put f { fr with owner := some pl.owner }
      spaces := s.spaces.insert pl.space { sp with
        pages := ⟨sp.pages.pages.insert pl.key { t.page with frame := some f }⟩
        directory := directory.set pl.address .dirty false } }, none⟩ := by
  have hlen := h.length_frame hf
  rcases Transfer.populate_eq_ok h.swap hlen hfill with ⟨-, hpop⟩ | ⟨e, he, -⟩
  · obtain ⟨hsame, hinit, hslot, -, -, -⟩ := hpop.spec h.swap hlen
    obtain ⟨e, hshow, rfl⟩ := Directory.exists_shows_of_map hmap (h.frame_lt hf).2
    have hshow' := hshow.setFlags .dirty false (by decide) (by decide)
    rw [← hsame.writable] at hshow'
    -- the fresh entry is the only change of the directory
    have hentries : ∀ other, (Directory.set ⟨sp.directory.entries.insert pl.key e⟩ pl.address
        .dirty false).entries.get? other = if other = pl.key then
          some (e.setFlags (e.flags.set .dirty false)) else sp.directory.entries.get? other := by
      intro other
      refine (Table.get?_modify ..).trans ?_
      simp only [Table.get?_insert]
      by_cases hkey : other = pl.key
      · subst hkey
        simp [Place.address]
      · simp [Place.address, hkey]
    have hseat := (h.fill hs hp habs hlen hpop hw).seat hf (Table.get?_insert_self ..)
      (Table.get?_insert_self ..) (hsame.frame.trans habs) hinit hslot hshow' hentries
    simp only [Table.insert_insert] at hseat
    exact hseat
  · cases he

theorem register (h : Coherent ⟨s, held⟩) {page : Page}
    (hs : s.spaces.get? pl.space = some sp) (hvacant : sp.pages.pages.get? pl.key = none)
    (ha : page.address = pl.address) (hk : pl.key % pageSize = 0) (habs : page.frame = none)
    (hslot : page.slot = none) (htyped : page.mapping.isSome = true → page.type = .fileBacked) :
    Coherent ⟨{ s with
      spaces := s.spaces.insert pl.space { sp with
        pages := ⟨sp.pages.pages.insert pl.key page⟩ } }, held⟩ := by
  have hnone : pageAt s.spaces pl = none := (pageAt_of_get? hs pl.key).trans hvacant
  have hpages := pageAt_put (u := { sp with
    pages := ⟨sp.pages.pages.insert pl.key page⟩ }) hs _ rfl
  have hentries := entryAt_insert_of_eq (u := { sp with
    pages := ⟨sp.pages.pages.insert pl.key page⟩ }) hs rfl
  refine ⟨h.pool, h.frames, h.swap, ?_, h.backed, ?_, ?_, fresh_insert h.fresh hs _⟩
  · show Linked (pageAt (s.spaces.insert pl.space _)) (entryAt (s.spaces.insert pl.space _)) _ _
    rw [hpages, hentries]
    refine h.linked.change (fun q hq => ?_) (fun q hq => ?_)
    · rw [hnone] at hq
      cases hq
    · cases hq
      exact ⟨habs, ha, hk⟩
  · show Parked (slotsOf (pageAt (s.spaces.insert pl.space _))) _
    rw [hpages, slotsOf_update_of_eq]
    · exact h.parked
    · rw [slotsOf, hnone]
      exact hslot
  · show Typed (pageAt (s.spaces.insert pl.space _))
    rw [hpages]
    refine h.typed.update fun q hq => ?_
    cases hq
    exact htyped

theorem remove (h : Coherent ⟨s, held⟩) (hs : s.spaces.get? pl.space = some sp)
    (hp : sp.pages.pages.get? pl.key = some p) (habs : p.frame = none) {after : Page}
    {swap : SwapTable} (hrel : p.releaseSlot s.swap = .ok (after, swap)) :
    Coherent ⟨{ s with
      swap
      spaces := s.spaces.insert pl.space { sp with
        pages := ⟨sp.pages.pages.erase pl.key⟩ } }, held⟩ := by
  have hpage := pageAt_eq hs hp
  have hpages := pageAt_erase (u := { sp with
    pages := ⟨sp.pages.pages.erase pl.key⟩ }) hs rfl
  have hentries := entryAt_insert_of_eq (u := { sp with
    pages := ⟨sp.pages.pages.erase pl.key⟩ }) hs rfl
  have hslots : slotsOf (pageAt s.spaces) pl = p.slot := by
    rw [slotsOf, hpage]
    rfl
  have hswap : swap.Sound ∧ Parked (update (slotsOf (pageAt s.spaces)) pl none) swap.isUsed := by
    rcases Page.releaseSlot_eq_ok hrel with ⟨n, hn, hreleased, -⟩ | ⟨hn, rfl, -⟩
    · obtain ⟨hsound, -, hused, -⟩ := SwapTable.release_spec h.swap hreleased
      rw [hused]
      exact ⟨hsound, h.parked.unpark (hslots.trans hn)⟩
    · rw [← hn, ← hslots, update_eq_self]
      exact ⟨h.swap, h.parked⟩
  refine ⟨h.pool, h.frames, hswap.1, ?_, h.backed, ?_, ?_, fresh_insert h.fresh hs _⟩
  · show Linked (pageAt (s.spaces.insert pl.space _)) (entryAt (s.spaces.insert pl.space _)) _ _
    rw [hpages, hentries]
    refine h.linked.change (fun q hq => ?_) (fun q hq => ?_)
    · rw [hpage] at hq
      cases hq
      exact habs
    · cases hq
  · show Parked (slotsOf (pageAt (s.spaces.insert pl.space _))) _
    rw [hpages, slotsOf_update]
    exact hswap.2
  · show Typed (pageAt (s.spaces.insert pl.space _))
    rw [hpages]
    exact h.typed.update fun q hq => by cases hq

theorem create (h : Coherent ⟨s, held⟩) :
    Coherent ⟨{ s with
      nextSpace := s.nextSpace + 1
      spaces := s.spaces.insert s.nextSpace {} }, held⟩ := by
  have hnone := h.fresh s.nextSpace (Nat.le_refl _)
  have hpages := pageAt_insert_new hnone
  have hentries := entryAt_insert_new hnone
  refine ⟨h.pool, h.frames, h.swap, ?_, h.backed, ?_, ?_, ?_⟩
  · show Linked (pageAt (s.spaces.insert s.nextSpace {}))
      (entryAt (s.spaces.insert s.nextSpace {})) _ _
    rw [hpages, hentries]
    exact h.linked
  · show Parked (slotsOf (pageAt (s.spaces.insert s.nextSpace {}))) _
    rw [hpages]
    exact h.parked
  · show Typed (pageAt (s.spaces.insert s.nextSpace {}))
    rw [hpages]
    exact h.typed
  · intro id hle
    have hle : s.nextSpace + 1 ≤ id := hle
    show (s.spaces.insert s.nextSpace {}).get? id = none
    rw [Table.get?_insert, if_neg (Nat.ne_of_gt hle)]
    exact h.fresh id (Nat.le_of_succ_le hle)

theorem drop (h : Coherent ⟨s, held⟩) (hs : s.spaces.get? id = some sp)
    (hempty : ∀ key, sp.pages.pages.get? key = none) :
    Coherent ⟨{ s with spaces := s.spaces.erase id }, held⟩ := by
  have hpages := pageAt_erase_empty hs hempty
  have hentries := entryAt_erase_empty hs fun key => by
    rw [← entryAt_of_get? hs]
    refine h.linked.entry_none fun p hp => ?_
    rw [pageAt_of_get? hs, hempty] at hp
    cases hp
  refine ⟨h.pool, h.frames, h.swap, ?_, h.backed, ?_, ?_, ?_⟩
  · show Linked (pageAt (s.spaces.erase id)) (entryAt (s.spaces.erase id)) _ _
    rw [hpages, hentries]
    exact h.linked
  · show Parked (slotsOf (pageAt (s.spaces.erase id))) _
    rw [hpages]
    exact h.parked
  · show Typed (pageAt (s.spaces.erase id))
    rw [hpages]
    exact h.typed
  · intro other hle
    have hle : s.nextSpace ≤ other := hle
    show (s.spaces.erase id).get? other = none
    rw [Table.get?_erase]
    split
    · rfl
    · exact h.fresh other hle

/-- Every move keeps the machine coherent. -/
theorem move {l : Label} {m n : Moment} (h : Coherent m) (hm : Move l m n) : Coherent n := by
  cases hm with
  | note => exact ⟨h.pool, h.frames, h.swap, h.linked, h.backed, h.parked, h.typed, h.fresh⟩
  | turn => exact h.turn
  | take hfree => exact h.take hfree
  | giveBack hr hg => exact h.giveBack hr hg
  | scribble _ hw => exact h.write hw
  | request => exact ⟨h.pool, h.frames, h.swap, h.linked, h.backed, h.parked, h.typed, h.fresh⟩
  | handles => exact ⟨h.pool, h.frames, h.swap, h.linked, h.backed, h.parked, h.typed, h.fresh⟩
  | outside => exact ⟨h.pool, h.frames, h.swap, h.linked, h.backed, h.parked, h.typed, h.fresh⟩
  | switch => exact ⟨h.pool, h.frames, ⟨h.swap.capacity_eq, h.swap.length_sector⟩, h.linked,
      h.backed, h.parked, h.typed, h.fresh⟩
  | mark hs a flag up hp hw => exact h.mark hs a flag up hp hw
  | @soil _ _ pl _ hs => exact h.mark hs pl.address .dirty true (by decide) (by decide)
  | pin hf pinned => exact h.pin hf pinned
  | adjust hs => exact h.of_space hs rfl rfl
  | evict hf ho hs hp hout => exact h.evict hf ho hs hp hout
  | spare _ _ _ _ hout => exact h.spare hout
  | attempt => exact h.account _
  | populate hf hs hp habs hfill hw hmap => exact (h.populate hf hs hp habs hfill hw hmap).account _
  | lose hf hs hp habs hfill hw =>
    rcases Transfer.populate_eq_ok h.swap (h.length_frame hf) hfill with ⟨-, hpop⟩ | ⟨e, he, -⟩
    · exact (h.fill hs hp habs (h.length_frame hf) hpop hw).account _
    · cases he
  | seat hf hs hp habs hkind hmap =>
    obtain ⟨e, hshow, rfl⟩ := Directory.exists_shows_of_map hmap (h.frame_lt hf).2
    refine h.seat hf hs hp habs ?_ ?_ hshow fun other => Table.get?_insert ..
    · simp only [Page.isInitialized, hkind]
    · simp only [Page.slot, hkind]
  | @unseat s pl f fr sp p hf hs hp hres =>
    have hpage := pageAt_eq hs hp
    obtain ⟨-, hslot⟩ := h.linked.ready hpage hres
    refine h.unseat hf hs hp hres h.swap .refl ?_
    have hsame : p.slot = slotsOf (pageAt s.spaces) pl := by
      rw [slotsOf, hpage]
      rfl
    rw [hsame, update_eq_self]
    exact h.parked
  | store _ _ hw => exact h.write hw
  | register hs hv ha hk habs hslot htyped => exact h.register hs hv ha hk habs hslot htyped
  | remove hs hp habs hrel => exact h.remove hs hp habs hrel
  | number hs => exact h.of_space hs rfl rfl
  | record hs => exact h.of_space hs rfl rfl
  | unrecord hs => exact h.of_space hs rfl rfl
  | create => exact h.create
  | drop hs hempty => exact h.drop hs hempty

theorem moves {kinds : Label → Prop} {m n : Moment} (h : Coherent m) (hm : Moves kinds m n) :
    Coherent n := hm.preserves (fun _ h hmove => h.move hmove) h

/-- What every single move of a machine in order preserves holds at the end. -/
theorem preserves {kinds : Label → Prop} {P : Moment → Prop} {m n : Moment} (h : Coherent m)
    (hmoves : Moves kinds m n)
    (hstep : ∀ {l m n}, kinds l → Coherent m → P m → Move l m n → P n) (hm : P m) : P n := by
  have hboth := hmoves.preserves (P := fun n => Coherent n ∧ P n)
    (fun hl hn hmove => ⟨hn.1.move hmove, hstep hl hn.1 hn.2 hmove⟩) ⟨h, hm⟩
  exact hboth.2

/-- A view of the machine that no single move changes is the same at the end. -/
theorem keeps {α : Type} {kinds : Label → Prop} {m n : Moment} (h : Coherent m)
    (hmoves : Moves kinds m n) (view : Moment → α)
    (hstep : ∀ {l m n}, kinds l → Coherent m → Move l m n → view n = view m) :
    view n = view m :=
  h.preserves (P := fun n => view n = view m) hmoves
    (fun hl hn hm hmove => (hstep hl hn hmove).trans hm) rfl

end Coherent
end Pager
