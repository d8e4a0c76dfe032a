import Pager.Machine.Claim
import Pager.Proofs.Coherence

/-!
The steps that operations are made of, run on a coherent machine. Each is read
off with its result written as one change of one space, which is the form that
moves have.
-/
namespace Pager

namespace PageTable

theorem get?_address {pl : Place} (h : pl.key % pageSize = 0) (t : PageTable) :
    t.get? pl.address = t.pages.get? pl.key := by
  refine get?_of_isPageAligned ?_
  simp [Place.address, Address.isPageAligned, Address.pageOffset, h]

end PageTable

namespace Place

/-- The place of the page that holds an address. -/
def of (id : SpaceId) (a : VirtualAddress) : Place := ⟨id, a.pageBase.value⟩

theorem aligned_of (id : SpaceId) (a : VirtualAddress) : (of id a).key % pageSize = 0 := by
  rw [of, Address.pageBase_value]
  exact Nat.mul_mod_left ..

theorem of_address {pl : Place} (hk : pl.key % pageSize = 0) : of pl.space pl.address = pl :=
  Place.ext rfl ((Address.pageBase_value _).trans (Nat.div_mul_cancel (Nat.dvd_of_mod_eq_zero hk)))

end Place

namespace Machine

variable {s t : Machine} {held : Option FrameId} {pl : Place} {sp : Space} {p : Page}
  {f : FrameId} {fr : Frame} {r : Except PagerError Unit}

/-- A page that is put back as it was changes nothing. -/
theorem spaces_insert_same (hs : s.spaces.get? pl.space = some sp)
    (hp : sp.pages.pages.get? pl.key = some p) :
    s.spaces.insert pl.space { sp with pages := ⟨sp.pages.pages.insert pl.key p⟩ } = s.spaces := by
  rw [Table.insert_of_get? hp]
  exact Table.insert_of_get? hs

/-- A transfer between the page at a place and a frame, as one change of the machine. -/
theorem transfer_eq_ok (h : Coherent ⟨s, held⟩) (hs : s.spaces.get? pl.space = some sp)
    (hp : sp.pages.pages.get? pl.key = some p)
    {address : PhysicalAddress} {m : Action Transfer PagerError Unit}
    (hm : ∀ {q u}, m ⟨p, s.pool.bytesAt address, s.swap, s.files, []⟩ = .ok (q, u) →
      u.page.address = p.address)
    (run : transfer pl.space pl.address address m s = .ok (r, t)) :
    ∃ u pool, m ⟨p, s.pool.bytesAt address, s.swap, s.files, []⟩ = .ok (r, u) ∧
      s.pool.write address 0 u.frame = .ok pool ∧
      t = { s with
        swap := u.swap
        files := u.files
        inits := u.inits.map (Prod.mk pl.owner) ++ s.inits
        pool
        spaces := s.spaces.insert pl.space { sp with
          pages := ⟨sp.pages.pages.insert pl.key u.page⟩ } } := by
  obtain ⟨hkeyed, hk⟩ := h.linked.keyed (Coherent.pageAt_eq hs hp)
  unfold transfer at run
  rw [page_bind hs ((PageTable.get?_address hk _).trans hp)] at run
  obtain ⟨bytes, hread, run⟩ := readFrame_bind_eq_ok.1 run
  obtain ⟨-, -, rfl⟩ := FramePool.read_eq_ok.1 hread
  rw [Action.get_bind] at run
  obtain ⟨⟨q, u⟩, hrun, run⟩ := Action.liftM_bind_eq_ok.1 run
  dsimp only at run
  rw [Action.set_bind] at run
  rcases Action.bind_eq_ok.1 run with ⟨_, v, hwrite, run⟩ | ⟨e, hwrite, -⟩
  · obtain ⟨pool, hpool, -, rfl⟩ := writeFrame_eq_ok.1 hwrite
    cases run
    refine ⟨u, pool, hrun, hpool, ?_⟩
    have ha : u.page.address.value = pl.key := by
      rw [hm hrun, hkeyed]
      rfl
    have hput : sp.pages.put u.page = ⟨sp.pages.pages.insert pl.key u.page⟩ := by
      have hold : sp.pages.pages.get? u.page.address.value = some p := by
        rw [ha]
        exact hp
      rw [PageTable.put_eq hold, ha]
    simp only [Table.modify_eq_insert hs, hput]
    rfl
  · obtain ⟨pool, -, hr, -⟩ := writeFrame_eq_ok.1 hwrite
    cases hr

/-- A frame is entered for a page unless the directory refuses. -/
theorem install_cases (hk : pl.key % pageSize = 0) (hs : s.spaces.get? pl.space = some sp)
    (hp : sp.pages.pages.get? pl.key = some p) {address : PhysicalAddress}
    (run : install pl.space pl.address address s = .ok (r, t)) :
    (∃ e, sp.refusesEntries = some e ∧ r = .error e ∧ t = s) ∨
      ∃ directory, sp.directory.map pl.address address p.writable = .ok directory ∧ r = .ok () ∧
        t = { s with spaces := s.spaces.insert pl.space { sp with directory } } := by
  unfold install at run
  rw [page_bind hs ((PageTable.get?_address hk _).trans hp), space_bind hs] at run
  obtain ⟨refuses, hr⟩ : ∃ refuses, sp.refusesEntries = refuses := ⟨_, rfl⟩
  rw [hr] at run
  cases refuses with
  | some e =>
    cases run
    exact .inl ⟨e, hr, rfl, rfl⟩
  | none =>
    obtain ⟨directory, hmap, run⟩ := Action.liftM_bind_eq_ok.1 run
    rw [modifyDirectory, modifySpace_apply, Table.modify_eq_insert hs] at run
    cases run
    exact .inr ⟨directory, hmap, rfl, rfl⟩

/-- A page and a frame are linked; both were free. -/
theorem bindFrame_cases (hk : pl.key % pageSize = 0) (hs : s.spaces.get? pl.space = some sp)
    (hp : sp.pages.pages.get? pl.key = some p)
    (run : bindFrame f pl.space pl.address s = .ok (r, t)) :
    r = .ok () ∧ p.frame = none ∧ ∃ fr, s.frames.get? f = some fr ∧ fr.owner = none ∧
      t = { s with
        frames := s.frames.put f { fr with owner := some pl.owner }
        spaces := s.spaces.insert pl.space { sp with
          pages := ⟨sp.pages.pages.insert pl.key { p with frame := some f }⟩ } } := by
  unfold bindFrame at run
  rw [page_bind hs ((PageTable.get?_address hk _).trans hp), Action.get_bind] at run
  obtain ⟨⟨frames, bound⟩, hbind, run⟩ := Action.liftM_bind_eq_ok.1 run
  obtain ⟨ha, habs, fr, hf, ho, rfl, rfl⟩ := FrameTable.bind_eq_ok.1 hbind
  have ha' : p.address.value = pl.key := by rw [ha]; rfl
  have hput : sp.pages.put { p with frame := some f } =
      ⟨sp.pages.pages.insert pl.key { p with frame := some f }⟩ := by
    have hold : sp.pages.pages.get? ({ p with frame := some f } : Page).address.value = some p := by
      rw [← hp, ← ha']
    rw [PageTable.put_eq hold]
    simp only [ha']
  dsimp only at run
  rw [Action.set_bind, putPage, modifySpace_apply] at run
  simp only [Table.modify_eq_insert hs, hput] at run
  cases run
  exact ⟨rfl, habs, fr, hf, ho, rfl⟩

theorem returnFrame_move (run : returnFrame f s = .ok (r, t)) :
    r = .ok () ∧ Move .giveBack ⟨s, some f⟩ ⟨t, none⟩ := by
  unfold returnFrame at run
  rcases Action.bind_eq_ok.1 run with ⟨address, u, hremove, run⟩ | ⟨e, hremove, -⟩
  · obtain ⟨_, frames, hframes, hr, rfl⟩ := onFrames_eq_ok.1 hremove
    cases hr
    rw [Action.get_bind] at run
    obtain ⟨pool, hpool, run⟩ := Action.liftM_bind_eq_ok.1 run
    cases run
    exact ⟨rfl, .giveBack hframes hpool⟩
  · obtain ⟨_, _, -, hr, -⟩ := onFrames_eq_ok.1 hremove
    cases hr

/-- A frame that could not be filled or entered goes back to the pool. -/
theorem settle_cases {id : SpaceId} {a : VirtualAddress} {m : Act Unit}
    (hf : s.frames.get? f = some fr) (run : settle id a f m s = .ok (r, t)) :
    ((do m; install id a fr.address) s = .ok (.ok (), t) ∧ r = .ok ()) ∨
      ∃ e u, (do m; install id a fr.address) s = .ok (.error e, u) ∧ r = .error e ∧
        Move .giveBack ⟨u, some f⟩ ⟨t, none⟩ := by
  unfold settle at run
  obtain ⟨fr', hf', run⟩ := addressOfFrame_bind_eq_ok.1 run
  rw [hf] at hf'
  cases hf'
  obtain ⟨q, u, htry, run⟩ := Action.attempt_bind_eq_ok.1 run
  cases q with
  | ok _ =>
    cases run
    exact .inl ⟨htry, rfl⟩
  | error e =>
    rcases Action.bind_eq_ok.1 run with ⟨_, v, hreturn, run⟩ | ⟨e', hreturn, -⟩
    · cases run
      exact .inr ⟨e, u, htry, rfl, (returnFrame_move hreturn).2⟩
    · cases (returnFrame_move hreturn).1

end Machine
end Pager
