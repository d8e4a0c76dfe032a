import Pager.Proofs.Lookup
import Pager.Proofs.Pool
import Pager.Proofs.Transfers

/-!
The small changes that every operation is made of. Between two of them the
machine is in order, apart from a single frame that may be in hand: taken from
the pool or from a page, and not yet given to another page or back. A change of
several parts that only makes sense as a whole is one move, so a page that is
moved out loses its frame, its entry and its bytes at once.
-/
namespace Pager

/-- A machine in the middle of an operation. -/
structure Moment where
  machine : Machine
  /-- The tracked frame that backs no page. -/
  held : Option FrameId := none

inductive Label where
  | note
  | turn
  | take
  | giveBack
  | scribble
  | request
  | handles
  | outside
  | switch
  | mark
  | soil (pl : Place)
  | pin
  | adjust (refuses : Option PagerError)
  | evict (pl : Place)
  | spare (pl : Place)
  | attempt (pl : Place)
  | populate (pl : Place)
  | lose (pl : Place)
  | seat (pl : Place)
  | unseat (pl : Place) (p : Page)
  | store (pl : Place) (start : Nat) (bytes : Bytes)
  | register (pl : Place) (page : Page)
  | remove (pl : Place) (p : Page)
  | number (id : SpaceId)
  | record (id : SpaceId) (start : Nat) (mapping : Mapping)
  | unrecord (id : SpaceId) (start : Nat)
  | create (id : SpaceId)
  | drop (id : SpaceId)

/-- Files are read, or one of them is asked to take back a page that was stored to. -/
inductive Machine.Asks (s : Machine) : FileStore → Prop
  | reads {files : FileStore} (fetches : FileStore.Fetches s.files files) : Asks s files
  | writesBack {pl : Place} {f : FrameId} {fr : Frame} {sp : Space} {p : Page} {file : FileBacking}
      {files : FileStore} {q : Except StoreError Nat} (tracked : s.frames.get? f = some fr)
      (owner : fr.owner = some pl.owner) (space : s.spaces.get? pl.space = some sp)
      (page : sp.pages.pages.get? pl.key = some p) (kind : p.kind = .fileBacked file)
      (dirty : sp.directory.has pl.address .dirty = true)
      (wrote : FileStore.writeAt file.file ((s.pool.bytesAt fr.address).take file.readBytes)
        file.offset s.files = .ok (q, files)) : Asks s files

inductive Move : Label → Moment → Moment → Prop
  | note {s : Machine} {held : Option FrameId} (evictions : Nat) (events : List Event) :
      Move .note ⟨s, held⟩ ⟨{ s with evictions, events }, held⟩
  | turn {s : Machine} {held : Option FrameId} :
      Move .turn ⟨s, held⟩ ⟨{ s with frames := s.frames.advance.2 }, held⟩
  | take {s : Machine} {address : PhysicalAddress} {pool : FramePool}
      (free : s.pool.take? = some (address, pool)) :
      Move .take ⟨s, none⟩
        ⟨{ s with pool, frames := (s.frames.insert address).2 }, (s.frames.insert address).1⟩
  | giveBack {s : Machine} {f : FrameId} {address : PhysicalAddress} {frames : FrameTable}
      {pool : FramePool} (untracked : s.frames.remove f = .ok (address, frames))
      (returned : s.pool.giveBack address = .ok pool) :
      Move .giveBack ⟨s, some f⟩ ⟨{ s with pool, frames }, none⟩
  /-- Bytes are stored in the frame in hand. -/
  | scribble {s : Machine} {f : FrameId} {fr : Frame} {start : Nat} {bytes : Bytes}
      {pool : FramePool} (tracked : s.frames.get? f = some fr)
      (wrote : s.pool.write fr.address start bytes = .ok pool) :
      Move .scribble ⟨s, some f⟩ ⟨{ s with pool }, some f⟩
  | request {s : Machine} {held : Option FrameId} {files : FileStore} (asks : s.Asks files) :
      Move .request ⟨s, held⟩ ⟨{ s with files }, held⟩
  /-- A handle is opened that no caller gets. -/
  | handles {s : Machine} {held : Option FrameId} :
      Move .handles ⟨s, held⟩
        ⟨{ s with files := { s.files with nextSerial := s.files.nextSerial + 1 } }, held⟩
  /-- Somebody else works on the files. -/
  | outside {s : Machine} {held : Option FrameId} {files : FileStore}
      (handled : s.files.Handled files) : Move .outside ⟨s, held⟩ ⟨{ s with files }, held⟩
  | switch {s : Machine} {held : Option FrameId} (switches : DiskSwitches) :
      Move .switch ⟨s, held⟩
        ⟨{ s with swap := { s.swap with disk := s.swap.disk.switch switches } }, held⟩
  | mark {s : Machine} {held : Option FrameId} {id : SpaceId} {sp : Space}
      (space : s.spaces.get? id = some sp) (a : VirtualAddress) (flag : PageFlag) (up : Bool)
      (present : flag ≠ .present) (writable : flag ≠ .writable) (dirty : flag ≠ .dirty) :
      Move .mark ⟨s, held⟩ ⟨{ s with
        spaces := s.spaces.insert id { sp with directory := sp.directory.set a flag up } }, held⟩
  /-- A page that was stored to becomes dirty. -/
  | soil {s : Machine} {held : Option FrameId} {pl : Place} {sp : Space}
      (space : s.spaces.get? pl.space = some sp) :
      Move (.soil pl) ⟨s, held⟩ ⟨{ s with
        spaces := s.spaces.insert pl.space { sp with
          directory := sp.directory.set pl.address .dirty true } }, held⟩
  | pin {s : Machine} {held : Option FrameId} {f : FrameId} {fr : Frame}
      (tracked : s.frames.get? f = some fr) (pinned : Bool) :
      Move .pin ⟨s, held⟩ ⟨{ s with frames := s.frames.put f { fr with pinned } }, held⟩
  | adjust {s : Machine} {held : Option FrameId} {id : SpaceId} {sp : Space}
      (space : s.spaces.get? id = some sp) (stackPointer : Option VirtualAddress)
      (refusesEntries : Option PagerError) (busy : Bool) :
      Move (.adjust refusesEntries) ⟨s, held⟩ ⟨{ s with
        spaces := s.spaces.insert id { sp with stackPointer, refusesEntries, busy } }, held⟩
  /-- A page is moved out, and its frame comes to hand. -/
  | evict {s : Machine} {pl : Place} {f : FrameId} {fr : Frame} {sp : Space} {p : Page}
      {t : Transfer} (tracked : s.frames.get? f = some fr) (owner : fr.owner = some pl.owner)
      (space : s.spaces.get? pl.space = some sp) (page : sp.pages.pages.get? pl.key = some p)
      (out : Transfer.evict (sp.directory.has pl.address .dirty)
        ⟨p, s.pool.bytesAt fr.address, s.swap, s.files, []⟩ = .ok (.ok (), t)) :
      Move (.evict pl) ⟨s, none⟩ ⟨{ s with
        swap := t.swap
        files := t.files
        frames := s.frames.put f { fr with owner := none, pinned := false }
        spaces := s.spaces.insert pl.space { sp with
          pages := ⟨sp.pages.pages.insert pl.key { t.page with frame := none }⟩
          directory := sp.directory.unmap pl.address } }, some f⟩
  /-- A page could not be moved out. -/
  | spare {s : Machine} {pl : Place} {f : FrameId} {fr : Frame} {sp : Space} {p : Page}
      {t : Transfer} {e : PagerError} (tracked : s.frames.get? f = some fr)
      (owner : fr.owner = some pl.owner) (space : s.spaces.get? pl.space = some sp)
      (page : sp.pages.pages.get? pl.key = some p)
      (out : Transfer.evict (sp.directory.has pl.address .dirty)
        ⟨p, s.pool.bytesAt fr.address, s.swap, s.files, []⟩ = .ok (.error e, t)) :
      Move (.spare pl) ⟨s, none⟩ ⟨{ s with swap := t.swap, files := t.files }, none⟩
  /-- A page's initializer was run, and the page is as unpopulated as before. -/
  | attempt {s : Machine} {held : Option FrameId} {pl : Place} {sp : Space} {p : Page}
      {u : Unpopulated} {outcome : Except PagerError Unit}
      (space : s.spaces.get? pl.space = some sp) (page : sp.pages.pages.get? pl.key = some p)
      (absent : p.frame = none) (kind : p.kind = .unpopulated u)
      (fails : outcome = .ok () → ∃ e, u.populated = .error e) :
      Move (.attempt pl) ⟨s, held⟩ ⟨{ s with
        inits := (pl.owner, ⟨u.initializer, u.slice, outcome⟩) :: s.inits }, held⟩
  /-- The frame in hand is filled with the contents of a page and mapped there. -/
  | populate {s : Machine} {pl : Place} {f : FrameId} {fr : Frame} {sp : Space} {p : Page}
      {t : Transfer} {pool : FramePool} {directory : Directory .emulated}
      (tracked : s.frames.get? f = some fr) (space : s.spaces.get? pl.space = some sp)
      (page : sp.pages.pages.get? pl.key = some p) (absent : p.frame = none)
      (filled : Transfer.populate ⟨p, s.pool.bytesAt fr.address, s.swap, s.files, []⟩ =
        .ok (.ok (), t))
      (wrote : s.pool.write fr.address 0 t.frame = .ok pool)
      (entered : sp.directory.map pl.address fr.address p.writable = .ok directory) :
      Move (.populate pl) ⟨s, some f⟩ ⟨{ s with
        swap := t.swap
        files := t.files
        inits := t.inits.map (Prod.mk pl.owner) ++ s.inits
        pool
        frames := s.frames.put f { fr with owner := some pl.owner }
        spaces := s.spaces.insert pl.space { sp with
          pages := ⟨sp.pages.pages.insert pl.key { t.page with frame := some f }⟩
          directory := directory.set pl.address .dirty false } }, none⟩
  /-- The frame in hand is filled, but the directory refuses it. -/
  | lose {s : Machine} {pl : Place} {f : FrameId} {fr : Frame} {sp : Space} {p : Page}
      {t : Transfer} {pool : FramePool} {e : PagerError}
      (tracked : s.frames.get? f = some fr) (space : s.spaces.get? pl.space = some sp)
      (page : sp.pages.pages.get? pl.key = some p) (absent : p.frame = none)
      (filled : Transfer.populate ⟨p, s.pool.bytesAt fr.address, s.swap, s.files, []⟩ =
        .ok (.ok (), t))
      (wrote : s.pool.write fr.address 0 t.frame = .ok pool)
      (refused : sp.refusesEntries = some e) :
      Move (.lose pl) ⟨s, some f⟩ ⟨{ s with
        swap := t.swap
        files := t.files
        inits := t.inits.map (Prod.mk pl.owner) ++ s.inits
        pool
        spaces := s.spaces.insert pl.space { sp with
          pages := ⟨sp.pages.pages.insert pl.key t.page⟩ } }, some f⟩
  /-- A populated page gets the frame in hand as it is. -/
  | seat {s : Machine} {pl : Place} {f : FrameId} {fr : Frame} {sp : Space} {p : Page}
      {directory : Directory .emulated} (tracked : s.frames.get? f = some fr)
      (space : s.spaces.get? pl.space = some sp) (page : sp.pages.pages.get? pl.key = some p)
      (absent : p.frame = none) (kind : p.kind = .anonymous none)
      (entered : sp.directory.map pl.address fr.address p.writable = .ok directory) :
      Move (.seat pl) ⟨s, some f⟩ ⟨{ s with
        frames := s.frames.put f { fr with owner := some pl.owner }
        spaces := s.spaces.insert pl.space { sp with
          pages := ⟨sp.pages.pages.insert pl.key { p with frame := some f }⟩
          directory } }, none⟩
  /-- A page loses its frame with what is in it. -/
  | unseat {s : Machine} {pl : Place} {f : FrameId} {fr : Frame} {sp : Space} {p : Page}
      (tracked : s.frames.get? f = some fr) (space : s.spaces.get? pl.space = some sp)
      (page : sp.pages.pages.get? pl.key = some p) (resident : p.frame = some f) :
      Move (.unseat pl p) ⟨s, none⟩ ⟨{ s with
        frames := s.frames.put f { fr with owner := none, pinned := false }
        spaces := s.spaces.insert pl.space { sp with
          pages := ⟨sp.pages.pages.insert pl.key { p with frame := none }⟩
          directory := sp.directory.unmap pl.address } }, some f⟩
  /-- Bytes are stored in the frame of a page. -/
  | store {s : Machine} {pl : Place} {f : FrameId} {fr : Frame} {start : Nat} {bytes : Bytes}
      {pool : FramePool} (tracked : s.frames.get? f = some fr) (owner : fr.owner = some pl.owner)
      (wrote : s.pool.write fr.address start bytes = .ok pool) :
      Move (.store pl start bytes) ⟨s, none⟩ ⟨{ s with pool }, none⟩
  /-- A page without frame and slot is added. -/
  | register {s : Machine} {held : Option FrameId} {pl : Place} {sp : Space} {page : Page}
      (space : s.spaces.get? pl.space = some sp) (vacant : sp.pages.pages.get? pl.key = none)
      (address : page.address = pl.address) (aligned : pl.key % pageSize = 0)
      (absent : page.frame = none) (slotless : page.slot = none)
      (typed : page.mapping.isSome = true → page.type = .fileBacked) :
      Move (.register pl page) ⟨s, held⟩ ⟨{ s with
        spaces := s.spaces.insert pl.space { sp with
          pages := ⟨sp.pages.pages.insert pl.key page⟩ } }, held⟩
  /-- A page without frame is taken away. -/
  | remove {s : Machine} {held : Option FrameId} {pl : Place} {sp : Space} {p after : Page}
      {swap : SwapTable} (space : s.spaces.get? pl.space = some sp)
      (page : sp.pages.pages.get? pl.key = some p) (absent : p.frame = none)
      (released : p.releaseSlot s.swap = .ok (after, swap)) :
      Move (.remove pl p) ⟨s, held⟩ ⟨{ s with
        swap
        spaces := s.spaces.insert pl.space { sp with
          pages := ⟨sp.pages.pages.erase pl.key⟩ } }, held⟩
  | number {s : Machine} {held : Option FrameId} {id : SpaceId} {sp : Space}
      (space : s.spaces.get? id = some sp) :
      Move (.number id) ⟨s, held⟩ ⟨{ s with
        spaces := s.spaces.insert id { sp with nextMapping := sp.nextMapping + 1 } }, held⟩
  | record {s : Machine} {held : Option FrameId} {id : SpaceId} {sp : Space}
      (space : s.spaces.get? id = some sp) (start : Nat) (mapping : Mapping) :
      Move (.record id start mapping) ⟨s, held⟩ ⟨{ s with
        spaces := s.spaces.insert id { sp with
          mappings := sp.mappings.insert start mapping } }, held⟩
  | unrecord {s : Machine} {held : Option FrameId} {id : SpaceId} {sp : Space}
      (space : s.spaces.get? id = some sp) (start : Nat) :
      Move (.unrecord id start) ⟨s, held⟩ ⟨{ s with
        spaces := s.spaces.insert id { sp with mappings := sp.mappings.erase start } }, held⟩
  | create {s : Machine} {held : Option FrameId} :
      Move (.create s.nextSpace) ⟨s, held⟩ ⟨{ s with
        nextSpace := s.nextSpace + 1
        spaces := s.spaces.insert s.nextSpace {} }, held⟩
  /-- A space without pages goes. -/
  | drop {s : Machine} {held : Option FrameId} {id : SpaceId} {sp : Space}
      (space : s.spaces.get? id = some sp) (empty : ∀ key, sp.pages.pages.get? key = none) :
      Move (.drop id) ⟨s, held⟩ ⟨{ s with spaces := s.spaces.erase id }, held⟩

/-- One move after the other. -/
inductive Trace : List Label → Moment → Moment → Prop
  | nil {m : Moment} : Trace [] m m
  | cons {l : Label} {rest : List Label} {m n o : Moment} (first : Move l m n)
      (others : Trace rest n o) : Trace (l :: rest) m o

theorem Trace.append {first others : List Label} {m n o : Moment} (h : Trace first m n)
    (h' : Trace others n o) : Trace (first ++ others) m o := by
  induction h with
  | nil => exact h'
  | cons hmove _ ih => exact .cons hmove (ih h')

/-- Any number of moves of the kinds told. -/
def Moves (kinds : Label → Prop) : Moment → Moment → Prop :=
  Relation.ReflTransGen fun m n => ∃ l, kinds l ∧ Move l m n

namespace Moves

variable {kinds more : Label → Prop} {m n o : Moment}

theorem refl : Moves kinds m m := Relation.ReflTransGen.refl

theorem trans (h : Moves kinds m n) (h' : Moves kinds n o) : Moves kinds m o :=
  Relation.ReflTransGen.trans h h'

theorem single {l : Label} (h : Move l m n) (hl : kinds l) : Moves kinds m n :=
  Relation.ReflTransGen.single ⟨l, hl, h⟩

theorem tail {l : Label} (h : Moves kinds m n) (h' : Move l n o) (hl : kinds l) :
    Moves kinds m o := Relation.ReflTransGen.tail h ⟨l, hl, h'⟩

theorem mono (h : Moves kinds m n) (hk : ∀ l, kinds l → more l) : Moves more m n :=
  Relation.ReflTransGen.mono (fun _ _ ⟨l, hl, hm⟩ => ⟨l, hk l hl, hm⟩) _ _ h

theorem of_trace {labels : List Label} (h : Trace labels m n) (hl : ∀ l ∈ labels, kinds l) :
    Moves kinds m n := by
  induction h with
  | nil => exact refl
  | cons first _ ih =>
    have hfirst := single first (hl _ (List.mem_cons_self ..))
    exact hfirst.trans (ih fun l hmem => hl l (List.mem_cons_of_mem _ hmem))

/-- What every single move preserves holds at the end. -/
theorem preserves {P : Moment → Prop} (h : Moves kinds m n)
    (step : ∀ {l m n}, kinds l → P m → Move l m n → P n) (hm : P m) : P n := by
  induction h with
  | refl => exact hm
  | tail _ hmove ih =>
    obtain ⟨l, hl, hmove⟩ := hmove
    exact step hl ih hmove

end Moves
end Pager
