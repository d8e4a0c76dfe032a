import Pager.Proofs.Requests
import Mathlib.Data.List.Induction

/-!
Page descriptors over their whole life. Pages that share a swap table are filled, moved out and
made to give up their slots in any order, while the disk and the files fail at will. A page
ripens once, a slot belongs to the page that recorded it until the page is filled or gives it
up, and the bytes in it are the ones that were moved out.
-/
namespace Pager

open Function

/-- The kind of a page that has just been filled. -/
def PageKind.filled : PageKind → Except PagerError PageKind
  | .unpopulated u => u.populated
  | .anonymous _ => .ok (.anonymous none)
  | .fileBacked file => .ok (.fileBacked file)

namespace Page

variable {p : Page} {kind : PageKind}

theorem slot_eq_some {n : SwapSlot} : p.slot = some n ↔ p.kind = .anonymous (some n) := by
  cases hk : p.kind <;> simp [slot, hk]

/-- Filling a page leaves it without a slot, and there is nothing left that filling it again
would turn it into. -/
theorem ripe_spec (h : p.kind.filled = .ok kind) :
    ({ p with kind } : Page).isInitialized = true ∧ ({ p with kind } : Page).slot = none ∧
      ({ p with kind } : Page).type = p.type ∧ kind.filled = .ok kind := by
  cases hk : p.kind with
  | unpopulated u =>
    rw [hk] at h
    rcases Transfer.populated_kind h with ⟨ht, rfl⟩ | ⟨ht, file, -, rfl⟩
    · exact ⟨rfl, rfl, by simp [type, hk, ht], rfl⟩
    · exact ⟨rfl, rfl, by simp [type, hk, ht], rfl⟩
  | anonymous slot =>
    rw [hk] at h
    cases h
    exact ⟨rfl, rfl, by simp [type, hk], rfl⟩
  | fileBacked file =>
    rw [hk] at h
    cases h
    exact ⟨rfl, rfl, by simp [type, hk], rfl⟩

/-- What has become of a page, which has been filled in the meantime or not. -/
structure Ripens (first now : Page) (filled : Prop) : Prop where
  rest : now = { first with kind := now.kind }
  type : now.type = first.type
  isInitialized_iff : now.isInitialized = true ↔ first.isInitialized = true ∨ filled
  /-- The initializer, and what it is told, are kept until it has done its work. -/
  waits : now.isInitialized = false → now = first
  /-- What the page turns into is settled from the start. -/
  kind : now.kind.filled = first.kind.filled

theorem Ripens.refl : Ripens p p False := ⟨rfl, rfl, by simp, fun _ => rfl, rfl⟩

theorem Ripens.congr {first now : Page} {filled other : Prop} (h : Ripens first now filled)
    (he : other ↔ filled) : Ripens first now other :=
  ⟨h.rest, h.type, by rw [h.isInitialized_iff, he], h.waits, h.kind⟩

theorem Ripens.fill {first now : Page} {filled : Prop} (h : Ripens first now filled)
    (hripe : now.kind.filled = .ok kind) : Ripens first { now with kind } True := by
  obtain ⟨hinit, -, htype, hkind⟩ := ripe_spec hripe
  refine ⟨?_, htype.trans h.type, iff_of_true hinit (.inr trivial), fun hnot => ?_, ?_⟩
  · rw [h.rest]
  · rw [hinit] at hnot
    cases hnot
  · exact hkind.trans (hripe.symm.trans h.kind)

/-- An anonymous page records a slot, or gives it up. -/
theorem Ripens.slot {first now : Page} {filled : Prop} {old : Option SwapSlot}
    (h : Ripens first now filled) (hk : now.kind = .anonymous old) (new : Option SwapSlot) :
    Ripens first { now with kind := .anonymous new } filled := by
  have hinit : now.isInitialized = true := by simp only [isInitialized, hk]
  have htype : now.type = .anonymous := by simp only [Page.type, hk]
  have hready : { now with kind := .anonymous new }.isInitialized = true := rfl
  refine ⟨?_, htype.symm.trans h.type, iff_of_true hready (h.isInitialized_iff.1 hinit),
    fun hnot => ?_, ?_⟩
  · rw [h.rest]
  · cases hready.symm.trans hnot
  · rw [← h.kind, hk]
    rfl

end Page

theorem Transfer.Populated.ripens {t u : Transfer} (h : Populated t u) :
    ∃ kind, t.page.kind.filled = .ok kind ∧ u.page = { t.page with kind } ∧
      (t.page.slot = none ∧ u.swap = t.swap ∨ ∃ n, t.page.slot = some n ∧
        t.swap.release n = .ok u.swap ∧ u.frame = t.swap.stored n) := by
  cases h with
  | @first _ filled kind hk hfill hkind =>
    have hd := fill_drafted hfill
    refine ⟨kind, by rw [hk]; exact hkind, by rw [hd.page], .inl ⟨by simp [Page.slot, hk], hd.swap⟩⟩
  | blank hk =>
    exact ⟨t.page.kind, by rw [hk]; rfl, rfl, .inl ⟨by simp [Page.slot, hk], rfl⟩⟩
  | back hk hreleased =>
    have hslot := Page.slot_eq_some.2 hk
    exact ⟨.anonymous none, by rw [hk]; rfl, rfl, .inr ⟨_, hslot, hreleased, rfl⟩⟩
  | reload hk hload =>
    have hd := load_drafted hload
    exact ⟨t.page.kind, by rw [hk]; rfl, hd.page, .inl ⟨by simp [Page.slot, hk], hd.swap⟩⟩

/-- The slots in use once a page has given up what it records. -/
def vacate (used : SwapSlot → Bool) : Option SwapSlot → SwapSlot → Bool
  | none => used
  | some n => update used n false

theorem Parked.vacate {α : Type} [DecidableEq α] {slots : α → Option SwapSlot}
    {used : SwapSlot → Bool} (h : Parked slots used) (a : α) :
    Parked (update slots a none) (vacate used (slots a)) := by
  cases ha : slots a with
  | none =>
    rw [update_eq_self_iff.2 ha.symm]
    exact h
  | some n => exact h.unpark ha

theorem SwapTable.swapOut_lowest {page : Bytes} {n : SwapSlot} {swap next : SwapTable}
    (h : swapOut page swap = .ok (.ok n, next)) : ∀ m < n, swap.isUsed m = true := by
  obtain ⟨hr, -⟩ | ⟨m, bitmap, disk, q, hb, -, -, ⟨-, hr, -⟩ | ⟨e, -, hr, -⟩⟩ := swapOut_eq_ok h
  · cases hr
  · cases hr
    exact (SlotBitmap.allocate_eq_some hb).2.1
  · cases hr

/-- Pages whose contents lie in one swap table and in files. -/
structure PageGroup (ι : Type) where
  page : ι → Page
  swap : SwapTable
  files : FileStore

inductive PageRequest (ι : Type) where
  | populate (i : ι) (frame : Bytes)
  | evict (i : ι) (frame : Bytes) (dirty : Bool)
  | release (i : ι)
  /-- The disk begins to fail, or ceases to. -/
  | disk (switches : DiskSwitches)
  /-- The files fail, recover, or are written by others. -/
  | files (files : FileStore)

inductive PageAnswer where
  | filled (frame : Bytes) (result : Except PagerError Unit)
  | parted (result : Except PagerError Unit)
  | done

/-- The page was not filled, or not moved out. -/
def PageAnswer.fails : PageAnswer → Bool
  | filled _ (.error _) | parted (.error _) => true
  | _ => false

/-- Page `i` has been filled. -/
def PageRequest.Fills {ι : Type} (i : ι) : PageRequest ι → PageAnswer → Prop
  | populate j _, .filled _ (.ok _) => j = i
  | _, _ => False

/-- Page `i` has been filled or has given up its slot. -/
def PageRequest.Settles {ι : Type} (i : ι) (request : PageRequest ι) (answer : PageAnswer) : Prop :=
  request = .release i ∨ request.Fills i answer

theorem PageRequest.not_fills {ι : Type} {i : ι} {request : PageRequest ι} {answer : PageAnswer}
    (h : answer.fails = true) : ¬ request.Fills i answer := by
  cases request with
  | populate j frame =>
    cases answer with
    | filled bytes result =>
      cases result with
      | ok _ => cases h
      | error e => exact id
    | parted | done => exact id
  | evict | release | disk | files => exact id

namespace PageGroup

variable {ι : Type} [DecidableEq ι] {g next : PageGroup ι} {i : ι} {frame bytes : Bytes}
  {r : Except PagerError Unit}

/-- A transfer between a page and a frame. -/
def transfer (g : PageGroup ι) (i : ι) (frame : Bytes) (m : Action Transfer PagerError Unit) :
    Except Bug (Bytes × Except PagerError Unit × PageGroup ι) := do
  let (result, t) ← m { page := g.page i, frame, swap := g.swap, files := g.files }
  return (t.frame, result, { page := update g.page i t.page, swap := t.swap, files := t.files })

def perform (g : PageGroup ι) : PageRequest ι → Except Bug (PageAnswer × PageGroup ι)
  | .populate i frame => do
    let (bytes, result, next) ← g.transfer i frame Transfer.populate
    return (.filled bytes result, next)
  | .evict i frame dirty => do
    let (_, result, next) ← g.transfer i frame (Transfer.evict dirty)
    return (.parted result, next)
  | .release i => do
    let (page, swap) ← (g.page i).releaseSlot g.swap
    return (.done, { page := update g.page i page, swap, files := g.files })
  | .disk switches =>
    .ok (.done, { g with swap := { g.swap with disk := g.swap.disk.switch switches } })
  | .files files => .ok (.done, { g with files })

/-- Frames are of one page, and only a page that was filled and has no slot is moved out. -/
def Allows (g : PageGroup ι) : PageRequest ι → Prop
  | .populate _ frame => frame.length = pageSize
  | .evict i frame _ =>
    frame.length = pageSize ∧ (g.page i).isInitialized = true ∧ (g.page i).slot = none
  | _ => True

/-- The request is for more bytes of a file than fit on a page. -/
def Overruns (g : PageGroup ι) : PageRequest ι → Prop
  | .populate i _ | .evict i _ _ => pageSize < (g.page i).readBytes
  | _ => False

/-- What a request makes of the pages and of the slots in use. -/
inductive Turns (g : PageGroup ι) : PageRequest ι → PageAnswer → PageGroup ι → Prop
  | failed {request : PageRequest ι} {answer : PageAnswer} {next : PageGroup ι}
      (fails : answer.fails = true) (page : next.page = g.page)
      (used : next.swap.isUsed = g.swap.isUsed) : Turns g request answer next
  | filled {i : ι} {frame bytes : Bytes} {kind : PageKind} {next : PageGroup ι}
      (ripe : (g.page i).kind.filled = .ok kind)
      (page : next.page = update g.page i { g.page i with kind })
      (used : next.swap.isUsed = vacate g.swap.isUsed (g.page i).slot)
      (contents : ∀ n, (g.page i).slot = some n → bytes = g.swap.stored n) :
      Turns g (.populate i frame) (.filled bytes (.ok ())) next
  | parked {i : ι} {frame : Bytes} {dirty : Bool} {n : SwapSlot} {next : PageGroup ι}
      (kind : (g.page i).kind = .anonymous none)
      (free : g.swap.isUsed n = false) (lowest : ∀ m < n, g.swap.isUsed m = true)
      (page : next.page = update g.page i { g.page i with kind := .anonymous (some n) })
      (used : next.swap.isUsed = update g.swap.isUsed n true)
      (contents : next.swap.stored n = frame) :
      Turns g (.evict i frame dirty) (.parted (.ok ())) next
  | filed {i : ι} {frame : Bytes} {dirty : Bool} {file : FileBacking} {next : PageGroup ι}
      (kind : (g.page i).kind = .fileBacked file) (page : next.page = g.page)
      (used : next.swap.isUsed = g.swap.isUsed) :
      Turns g (.evict i frame dirty) (.parted (.ok ())) next
  | released {i : ι} {n : SwapSlot} {next : PageGroup ι} (slot : (g.page i).slot = some n)
      (page : next.page = update g.page i { g.page i with kind := .anonymous none })
      (used : next.swap.isUsed = update g.swap.isUsed n false) : Turns g (.release i) .done next
  | idle {i : ι} (slot : (g.page i).slot = none) : Turns g (.release i) .done g
  | disk {switches : DiskSwitches} {next : PageGroup ι} (page : next.page = g.page)
      (used : next.swap.isUsed = g.swap.isUsed) : Turns g (.disk switches) .done next
  | files {files : FileStore} {next : PageGroup ι} (page : next.page = g.page)
      (used : next.swap.isUsed = g.swap.isUsed) : Turns g (.files files) .done next

/-- The slots in use are those that the pages record, one page each. -/
structure Sound (g : PageGroup ι) : Prop where
  swap : g.swap.Sound
  parked : Parked (Page.slot ∘ g.page) g.swap.isUsed

/-- What a request that was carried out leaves behind. -/
structure Follows (g : PageGroup ι) (request : PageRequest ι) (answer : PageAnswer)
    (next : PageGroup ι) : Prop where
  turns : g.Turns request answer next
  sound : next.Sound
  /-- The pages on the disk are not disturbed. -/
  stored : ∀ n, g.swap.isUsed n = true → next.swap.stored n = g.swap.stored n

theorem transfer_eq_ok {m : Action Transfer PagerError Unit} :
    g.transfer i frame m = .ok (bytes, r, next) ↔
      ∃ t, m ⟨g.page i, frame, g.swap, g.files, []⟩ = .ok (r, t) ∧ bytes = t.frame ∧
        next = ⟨update g.page i t.page, t.swap, t.files⟩ := by
  rw [transfer, except_bind_eq_ok]
  constructor
  · rintro ⟨⟨q, t⟩, hm, h⟩
    cases h
    exact ⟨t, hm, rfl, rfl⟩
  · rintro ⟨t, hm, rfl, rfl⟩
    exact ⟨(r, t), hm, rfl⟩

theorem transfer_eq_bug {m : Action Transfer PagerError Unit} {b : Bug}
    (h : g.transfer i frame m = .error b) :
    m ⟨g.page i, frame, g.swap, g.files, []⟩ = .error b := by
  rcases except_bind_eq_error.1 h with h | ⟨out, -, h⟩
  · exact h
  · cases h

omit [DecidableEq ι] in
/-- Pages and slots in use that are as they were are still in order. -/
theorem Sound.still (h : g.Sound) (hs : next.swap.Sound) (hpage : next.page = g.page)
    (hused : next.swap.isUsed = g.swap.isUsed) : next.Sound :=
  ⟨hs, by rw [hpage, hused]; exact h.parked⟩

theorem Sound.populate (h : g.Sound) (hf : frame.length = pageSize)
    (run : g.transfer i frame Transfer.populate = .ok (bytes, r, next)) :
    g.Follows (.populate i frame) (.filled bytes r) next := by
  obtain ⟨t, hrun, rfl, rfl⟩ := transfer_eq_ok.1 run
  rcases Transfer.populate_eq_ok h.swap hf hrun with ⟨rfl, hpop⟩ | ⟨e, rfl, hd⟩
  · obtain ⟨kind, hripe, hpage, hcase⟩ := hpop.ripens
    dsimp only at hripe hpage hcase
    have hnone := (Page.ripe_spec hripe).2.1
    have hslots : Page.slot ∘ update g.page i { g.page i with kind } =
        update (Page.slot ∘ g.page) i none := by rw [comp_update, hnone]
    have hparked : Parked (Page.slot ∘ update g.page i { g.page i with kind })
        (vacate g.swap.isUsed (g.page i).slot) := by
      rw [hslots]
      exact h.parked.vacate i
    rw [hpage]
    rcases hcase with ⟨hslot, hswap⟩ | ⟨n, hslot, hrel, hframe⟩
    · rw [hslot] at hparked
      rw [hswap]
      refine ⟨.filled hripe rfl ?_ ?_, ⟨h.swap, hparked⟩, fun _ _ => rfl⟩
      · rw [hslot]
        rfl
      · intro n hn
        rw [hslot] at hn
        cases hn
    · obtain ⟨hsound, -, hused, hdisk⟩ := SwapTable.release_spec h.swap hrel
      rw [hslot] at hparked
      refine ⟨.filled hripe rfl ?_ ?_, ⟨hsound, ?_⟩, fun m _ => ?_⟩
      · rw [hslot]
        exact hused
      · intro m hm
        rw [hslot] at hm
        cases hm
        exact hframe
      · rw [hused]
        exact hparked
      · rw [SwapTable.stored_of_disk_eq hdisk]
  · have hpage : update g.page i t.page = g.page := by rw [hd.page, update_eq_self]
    rw [hpage, hd.swap]
    exact ⟨.failed rfl rfl rfl, ⟨h.swap, h.parked⟩, fun _ _ => rfl⟩

theorem Sound.evict {dirty : Bool} (h : g.Sound)
    (run : g.transfer i frame (Transfer.evict dirty) = .ok (bytes, r, next)) :
    g.Follows (.evict i frame dirty) (.parted r) next := by
  obtain ⟨t, hrun, rfl, rfl⟩ := transfer_eq_ok.1 run
  cases Transfer.evict_eq_ok hrun with
  | @parked n swap hk hout =>
    dsimp only at hk hout ⊢
    obtain ⟨hsound, hstored, ⟨m, hm, hfree, hused, hcontents⟩ | ⟨e, he, -⟩⟩ :=
      SwapTable.swapOut_spec h.swap hout
    · cases hm
      have hslot : (g.page i).slot = none := by simp [Page.slot, hk]
      refine ⟨.parked hk hfree (SwapTable.swapOut_lowest hout) rfl hused hcontents, ⟨hsound, ?_⟩,
        hstored⟩
      dsimp only
      rw [comp_update, hused]
      exact h.parked.park hslot hfree
    · cases he
  | kept hk hout =>
    dsimp only at hk hout ⊢
    obtain ⟨hsound, hstored, ⟨m, hm, -⟩ | ⟨e, -, hused⟩⟩ := SwapTable.swapOut_spec h.swap hout
    · cases hm
    · have hpage : update g.page i (g.page i) = g.page := update_eq_self ..
      rw [hpage]
      exact ⟨.failed rfl rfl hused, h.still hsound rfl hused, hstored⟩
  | filed hk =>
    dsimp only at hk ⊢
    have hpage : update g.page i (g.page i) = g.page := update_eq_self ..
    rw [hpage]
    refine ⟨?_, ⟨h.swap, h.parked⟩, fun _ _ => rfl⟩
    cases r with
    | ok _ => exact .filed hk rfl rfl
    | error e => exact .failed rfl rfl rfl

theorem Sound.release (h : g.Sound) {page : Page} {swap : SwapTable}
    (run : (g.page i).releaseSlot g.swap = .ok (page, swap)) :
    g.Follows (.release i) .done ⟨update g.page i page, swap, g.files⟩ := by
  rcases Page.releaseSlot_eq_ok run with ⟨n, hslot, hrel, rfl⟩ | ⟨hslot, rfl, rfl⟩
  · obtain ⟨hsound, -, hused, hdisk⟩ := SwapTable.release_spec h.swap hrel
    refine ⟨.released hslot rfl hused, ⟨hsound, ?_⟩, fun m _ => ?_⟩
    · dsimp only
      rw [comp_update, hused]
      exact h.parked.unpark hslot
    · rw [SwapTable.stored_of_disk_eq hdisk]
  · have hpage : update g.page i (g.page i) = g.page := update_eq_self ..
    rw [hpage]
    exact ⟨.idle hslot, h, fun _ _ => rfl⟩

/-- What a request does. -/
theorem Sound.perform {request : PageRequest ι} {answer : PageAnswer} (h : g.Sound)
    (allowed : g.Allows request) (run : g.perform request = .ok (answer, next)) :
    g.Follows request answer next := by
  cases request with
  | populate i frame =>
    obtain ⟨⟨bytes, r, u⟩, htransfer, hout⟩ := except_bind_eq_ok.1 run
    cases hout
    exact h.populate allowed htransfer
  | evict i frame dirty =>
    obtain ⟨⟨bytes, r, u⟩, htransfer, hout⟩ := except_bind_eq_ok.1 run
    cases hout
    exact h.evict htransfer
  | release i =>
    obtain ⟨⟨page, swap⟩, hrelease, hout⟩ := except_bind_eq_ok.1 run
    cases hout
    exact h.release hrelease
  | disk switches =>
    cases run
    exact ⟨.disk rfl rfl, ⟨⟨h.swap.capacity_eq, h.swap.length_sector⟩, h.parked⟩, fun _ _ => rfl⟩
  | files files =>
    cases run
    exact ⟨.files rfl rfl, ⟨h.swap, h.parked⟩, fun _ _ => rfl⟩

omit [DecidableEq ι] in
/-- A page records a slot that is in use. -/
theorem Sound.isUsed (h : g.Sound) {n : SwapSlot} (hn : (g.page i).slot = some n) :
    g.swap.isUsed n = true := (h.parked.used_iff n).2 ⟨i, hn⟩

theorem perform_release (h : (g.page i).slot = none) : g.perform (.release i) = .ok (.done, g) := by
  have hsame : (g.page i).releaseSlot g.swap = .ok (g.page i, g.swap) := by
    unfold Page.releaseSlot
    split
    · rename_i n hk
      cases h.symm.trans (Page.slot_eq_some.2 hk)
    · rfl
  have hpage : update g.page i (g.page i) = g.page := update_eq_self ..
  refine except_bind_eq_ok.2 ⟨_, hsame, ?_⟩
  dsimp only
  rw [hpage]
  rfl

/-- Only bytes of a file that do not fit on the page can stop a request. -/
theorem Sound.perform_eq_bug {request : PageRequest ι} {b : Bug} (h : g.Sound)
    (allowed : g.Allows request) (run : g.perform request = .error b) :
    b = .bounds ∧ g.Overruns request := by
  cases request with
  | populate i frame =>
    rcases except_bind_eq_error.1 run with hbug | ⟨out, -, hout⟩
    · have hf : frame.length = pageSize := allowed
      exact Transfer.populate_eq_bug hf (fun n hn => h.isUsed hn) (transfer_eq_bug hbug)
    · cases hout
  | evict i frame dirty =>
    obtain ⟨hf, hinit, hslot⟩ := allowed
    rcases except_bind_eq_error.1 run with hbug | ⟨out, -, hout⟩
    · exact Transfer.evict_eq_bug hf hinit hslot (transfer_eq_bug hbug)
    · cases hout
  | release i =>
    rcases except_bind_eq_error.1 run with hbug | ⟨out, -, hout⟩
    · exact absurd hbug (Page.releaseSlot_ne_bug fun n hn => h.isUsed hn)
    · cases hout
  | disk | files => cases run

/-- Of a page that is put in the place of `j`. -/
theorem ripens_update {page : ι → Page} {j : ι} {q first : Page} {filled later : Prop}
    (h : first.Ripens (page i) filled) (hput : i = j → first.Ripens q later)
    (hother : i ≠ j → (later ↔ filled)) : first.Ripens (update page j q i) later := by
  by_cases hi : i = j
  · rw [hi, update_self]
    exact hput hi
  · rw [update_of_ne hi]
    exact h.congr (hother hi)

/-- What a request makes of a page, which it may have been made to or not. -/
theorem Turns.ripens {request : PageRequest ι} {answer : PageAnswer}
    (h : g.Turns request answer next) {first : Page} {filled : Prop}
    (hfirst : first.Ripens (g.page i) filled) :
    first.Ripens (next.page i) (filled ∨ request.Fills i answer) := by
  cases h with
  | failed fails page =>
    rw [page]
    exact hfirst.congr (or_iff_left (PageRequest.not_fills fails))
  | filled ripe page =>
    rw [page]
    refine ripens_update hfirst (fun hi => ?_) fun hi => or_iff_left (Ne.symm hi)
    subst hi
    exact (hfirst.fill ripe).congr (iff_of_true (.inr rfl) trivial)
  | parked kind free lowest page =>
    rw [page]
    refine ripens_update hfirst (fun hi => ?_) fun _ => or_iff_left id
    subst hi
    exact (hfirst.slot kind _).congr (or_iff_left id)
  | released slot page =>
    rw [page]
    refine ripens_update hfirst (fun hi => ?_) fun _ => or_iff_left id
    subst hi
    exact (hfirst.slot (Page.slot_eq_some.1 slot) _).congr (or_iff_left id)
  | idle => exact hfirst.congr (or_iff_left id)
  | filed _ page | disk page | files page =>
    rw [page]
    exact hfirst.congr (or_iff_left id)

/-- A page keeps its slot until it is filled or gives the slot up. -/
theorem Turns.untouched {request : PageRequest ι} {answer : PageAnswer} {n : SwapSlot}
    (h : g.Turns request answer next) (hn : (g.page i).slot = some n)
    (hother : ¬ request.Settles i answer) : next.page i = g.page i := by
  cases h with
  | failed _ page | filed _ page | disk page | files page => rw [page]
  | @filled j _ _ _ _ _ page =>
    have hi : i ≠ j := fun hi => hother (.inr hi.symm)
    rw [page, update_of_ne hi]
  | @parked j _ _ _ _ kind _ _ page =>
    have hi : i ≠ j := fun hi => by
      rw [hi, Page.slot_eq_some, kind] at hn
      cases hn
    rw [page, update_of_ne hi]
  | @released j _ _ _ page =>
    have hi : i ≠ j := fun hi => hother (.inl (by rw [hi]))
    rw [page, update_of_ne hi]
  | idle => rfl

/-- The group that `start` has become by requests that were allowed and carried out. -/
inductive Served (start : PageGroup ι) : List (PageRequest ι × PageAnswer) → PageGroup ι → Prop
  | start : Served start [] start
  | step {past : List (PageRequest ι × PageAnswer)} {g next : PageGroup ι} {request : PageRequest ι}
      {answer : PageAnswer} (served : Served start past g) (allowed : g.Allows request)
      (run : g.perform request = .ok (answer, next)) :
      Served start (past ++ [(request, answer)]) next

/-- Nothing has been moved out yet. -/
structure Fresh (g : PageGroup ι) : Prop where
  swap : g.swap = .ofDisk g.swap.disk
  length_sector : ∀ bytes ∈ g.swap.disk.sectors, bytes.length = sectorSize
  slot : ∀ i, (g.page i).slot = none

/-- As long as the page is not filled and does not give up its slot `n`, it stays as it is, and it
will be filled with `contents`, which frees that slot. -/
def Returns (g : PageGroup ι) (i : ι) (n : SwapSlot) (contents : Bytes) : Prop :=
  ∀ later last, Served g later last → (∀ e ∈ later, ¬ e.1.Settles i e.2) →
    last.page i = g.page i ∧ ∀ frame bytes back, frame.length = pageSize →
      last.perform (.populate i frame) = .ok (.filled bytes (.ok ()), back) →
        bytes = contents ∧ (back.page i).slot = none ∧
          back.swap.isUsed = update last.swap.isUsed n false

variable {start : PageGroup ι} {past : List (PageRequest ι × PageAnswer)}

omit [DecidableEq ι] in
theorem Fresh.sound (h : start.Fresh) : start.Sound := by
  refine ⟨?_, fun n => iff_of_false ?_ ?_, fun ha => ?_⟩
  · rw [h.swap]
    exact SwapTable.sound_ofDisk h.length_sector
  · rw [h.swap, SwapTable.isUsed_ofDisk]
    exact Bool.false_ne_true
  · rintro ⟨i, hi⟩
    cases (h.slot i).symm.trans hi
  · cases (h.slot _).symm.trans ha

theorem Served.sound (hstart : start.Sound) (h : Served start past g) : g.Sound := by
  induction h with
  | start => exact hstart
  | step served allowed run ih => exact (ih.perform allowed run).sound

theorem Served.ripens (hstart : start.Sound) (h : Served start past g) (i : ι) :
    (start.page i).Ripens (g.page i) (∃ e ∈ past, e.1.Fills i e.2) := by
  induction h with
  | start => exact Page.Ripens.refl.congr (by simp)
  | step served allowed run ih =>
    have hturns := ((served.sound hstart).perform allowed run).turns
    exact (hturns.ripens ih).congr (by simp [or_and_right, exists_or])

theorem Served.untouched {n : SwapSlot} (hstart : start.Sound) (h : Served start past g)
    (hn : (start.page i).slot = some n) (hquiet : ∀ e ∈ past, ¬ e.1.Settles i e.2) :
    g.page i = start.page i ∧ g.swap.stored n = start.swap.stored n := by
  induction h with
  | start => exact ⟨rfl, rfl⟩
  | @step past g next request answer served allowed run ih =>
    obtain ⟨hpage, hstored⟩ := ih fun e he => hquiet e (List.mem_append_left _ he)
    have hsound := served.sound hstart
    have hfollows := hsound.perform allowed run
    have hn' : (g.page i).slot = some n := by rw [hpage, hn]
    have hother := hquiet (request, answer) (List.mem_append_right _ (List.mem_singleton_self _))
    exact ⟨(hfollows.turns.untouched hn' hother).trans hpage,
      (hfollows.stored n (hsound.isUsed hn')).trans hstored⟩

/-- What is read from a slot is what lies there. -/
theorem Sound.returns {n : SwapSlot} (h : g.Sound) (hn : (g.page i).slot = some n) :
    g.Returns i n (g.swap.stored n) := by
  intro later last served hquiet
  obtain ⟨hpage, hstored⟩ := served.untouched h hn hquiet
  refine ⟨hpage, fun frame bytes back hf run => ?_⟩
  have hn' : (last.page i).slot = some n := by rw [hpage, hn]
  have allowed : last.Allows (.populate i frame) := hf
  have hfollows := (served.sound h).perform allowed run
  cases hfollows.turns with
  | failed fails => cases fails
  | filled ripe page used contents =>
    refine ⟨(contents n hn').trans hstored, ?_, ?_⟩
    · rw [page, update_self]
      exact (Page.ripe_spec ripe).2.1
    · rw [used, hn']
      rfl

/-- Pages that share a swap table, whatever was asked of them and whatever failed. A page keeps
its attributes and its type, and has its kind settled when it is filled for the first time. The
slots in use are those that the pages record. A request that is allowed is stopped only by a page
that wants more of its file than fits on it; else it turns the pages and the slots in use as it
should, and what fails leaves them alone. What was moved out comes back as it was, and a slot is
given up once. -/
theorem Served.orderly (hstart : start.Fresh) (h : Served start past g) :
    (∀ i, (start.page i).Ripens (g.page i) (∃ e ∈ past, e.1.Fills i e.2)) ∧
      Parked (Page.slot ∘ g.page) g.swap.isUsed ∧
      (∀ request, g.Allows request →
        (∃ answer next, g.perform request = .ok (answer, next) ∧ g.Turns request answer next) ∨
          g.perform request = .error .bounds ∧ g.Overruns request) ∧
      (∀ i frame dirty next n, g.Allows (.evict i frame dirty) →
        g.perform (.evict i frame dirty) = .ok (.parted (.ok ()), next) →
          (next.page i).slot = some n → next.Returns i n frame) ∧
      ∀ i answer next, g.perform (.release i) = .ok (answer, next) →
        (next.page i).slot = none ∧ next.perform (.release i) = .ok (.done, next) := by
  have hsound := h.sound hstart.sound
  refine ⟨h.ripens hstart.sound, hsound.parked, fun request allowed => ?_, ?_, ?_⟩
  · cases run : g.perform request with
    | error b =>
      obtain ⟨rfl, hover⟩ := hsound.perform_eq_bug allowed run
      exact .inr ⟨rfl, hover⟩
    | ok out => exact .inl ⟨_, _, rfl, (hsound.perform allowed run).turns⟩
  · intro i frame dirty next n allowed run hn
    have hfollows := hsound.perform allowed run
    have hreturns := hfollows.sound.returns hn
    cases hfollows.turns with
    | failed fails => cases fails
    | parked kind free lowest page used contents =>
      rw [page, update_self] at hn
      cases hn
      rwa [contents] at hreturns
    | filed kind page used =>
      rw [page] at hn
      rw [allowed.2.2] at hn
      cases hn
  · intro i answer next run
    obtain rfl : answer = .done := by
      obtain ⟨_, -, hout⟩ := except_bind_eq_ok.1 run
      cases hout
      rfl
    have allowed : g.Allows (.release i) := trivial
    have hnone : (next.page i).slot = none := by
      cases (hsound.perform allowed run).turns with
      | failed fails => cases fails
      | released slot page =>
        rw [page, update_self]
        rfl
      | idle slot => exact slot
    exact ⟨hnone, perform_release hnone⟩

/-- Two pages that were never filled, and a disk of two slots. -/
def pair : PageGroup Bool where
  page _ := .fresh ⟨0x10000⟩ true .anonymous none {}
  swap := .ofDisk { sectors := List.replicate 16 (.zeros sectorSize) }
  files := .ofContents []

theorem fresh_pair : pair.Fresh where
  swap := rfl
  length_sector bytes hb := by rw [List.eq_of_mem_replicate hb, Bytes.length_zeros]
  slot _ := rfl

def sevens : Bytes := List.replicate pageSize 7

/-- The disk cannot read a sector of the slot when the page is first asked for. What lies there
comes back all the same. -/
theorem orderly_of_pair : ∃ past g next n later last bytes back,
    Served pair past g ∧
      g.perform (.evict false sevens true) = .ok (.parted (.ok ()), next) ∧
      (next.page false).slot = some n ∧ Served next later last ∧ (∃ e ∈ later, e.2.fails = true) ∧
      last.perform (.populate false (.zeros pageSize)) = .ok (.filled bytes (.ok ()), back) ∧
      bytes = sevens := by
  have hrun : (pair.perform (.populate false (.zeros pageSize)) >>= fun first =>
      first.2.perform (.evict false sevens true) >>= fun out =>
      out.2.perform (.disk { badRead := some fun sector => sector == 3 }) >>= fun failing =>
      failing.2.perform (.populate false (.zeros pageSize)) >>= fun stuck =>
      stuck.2.perform (.disk { badRead := some fun _ => false }) >>= fun mended =>
      mended.2.perform (.populate false (.zeros pageSize)) >>= fun back =>
      .ok [out.1.fails, stuck.1.fails, back.1.fails, (first.2.page false).isInitialized,
        (first.2.page false).slot.isNone, (out.2.page false).slot == some 0]) =
      .ok [false, true, false, true, true, true] := by decide +kernel
  obtain ⟨⟨a, g⟩, hfirst, hrun⟩ := except_bind_eq_ok.1 hrun
  obtain ⟨⟨b, next⟩, hout, hrun⟩ := except_bind_eq_ok.1 hrun
  obtain ⟨⟨c, failing⟩, hfailing, hrun⟩ := except_bind_eq_ok.1 hrun
  obtain ⟨⟨d, stuck⟩, hstuck, hrun⟩ := except_bind_eq_ok.1 hrun
  obtain ⟨⟨e, mended⟩, hmended, hrun⟩ := except_bind_eq_ok.1 hrun
  obtain ⟨⟨answer, back⟩, hback, hrun⟩ := except_bind_eq_ok.1 hrun
  simp only [Except.ok.injEq, List.cons.injEq, Option.isNone_iff_eq_none, beq_iff_eq,
    and_true] at hrun
  obtain ⟨hb, hd, hanswer, hinit, hslot, hn⟩ := hrun
  have fits : ∀ g : PageGroup Bool, g.Allows (.populate false (.zeros pageSize)) := fun _ =>
    Bytes.length_zeros _
  have allowed : g.Allows (.evict false sevens true) := ⟨List.length_replicate .., hinit, hslot⟩
  have served : Served pair ([] ++ [_]) g := .step .start (fits _) hfirst
  have broken : Served next ([] ++ [(.disk _, c)]) failing := .step .start trivial hfailing
  have later : Served next (([] ++ [(.disk _, c)] ++ [_]) ++ [(.disk _, e)]) mended :=
    .step (broken.step (fits _) hstuck) trivial hmended
  obtain ⟨-, -, -, hreturns, -⟩ := served.orderly fresh_pair
  have hfollows := (served.sound fresh_pair.sound).perform allowed hout
  obtain rfl : b = .parted (.ok ()) := by
    cases hfollows.turns with
    | failed fails => cases fails.symm.trans hb
    | parked | filed => rfl
  obtain ⟨bytes, rfl⟩ : ∃ bytes, answer = .filled bytes (.ok ()) := by
    cases ((later.sound hfollows.sound).perform (fits _) hback).turns with
    | failed fails => cases fails.symm.trans hanswer
    | @filled _ _ bytes => exact ⟨bytes, rfl⟩
  obtain ⟨-, hbytes⟩ := hreturns false _ _ _ 0 allowed hout hn _ _ later <| by
    simp only [List.nil_append, List.cons_append, List.mem_cons, List.not_mem_nil, or_false]
    rintro _ (rfl | rfl | rfl) (hrelease | hfills)
    · cases hrelease
    · exact hfills
    · cases hrelease
    · exact PageRequest.not_fills hd hfills
    · cases hrelease
    · exact hfills
  refine ⟨_, g, next, 0, _, mended, bytes, back, served, hout, hn, later,
    ⟨(.populate false (.zeros pageSize), d), ?_, hd⟩, hback,
    (hbytes _ _ _ (Bytes.length_zeros _) hback).1⟩
  exact List.mem_append_left _ (List.mem_append_right _ (List.mem_singleton_self _))

end PageGroup
end Pager
