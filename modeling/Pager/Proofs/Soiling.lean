import Pager.Proofs.Contents
import Pager.Proofs.Operations

/-!
Pages of files that were stored to. Such a page lies in its frame with the dirty bit
set, and every move leaves it there unless it moves the page out, which asks the file
to take the bytes first, or takes the page away.
-/
namespace Pager

open Function

namespace Machine

/-- A part of a file lies in a frame that holds `bytes`, and has been stored to. -/
def Soiled (s : Machine) (pl : Place) (file : FileBacking) (bytes : Bytes) : Prop :=
  ∃ p f e, Pager.pageAt s.spaces pl = some p ∧ p.kind = .fileBacked file ∧ p.frame = some f ∧
    Pager.entryAt s.spaces pl = some e ∧ e.flags.has .dirty = true ∧ s.frameBytes f = bytes

/-- Somewhere between two moments the file is asked to take what the page holds. -/
def Offers (kinds : Label → Prop) (pl : Place) (file : FileBacking) (m n : Moment) : Prop :=
  ∃ s o l bytes q, Moves kinds m ⟨s, none⟩ ∧ s.Soiled pl file bytes ∧ kinds l ∧
    Move l ⟨s, none⟩ o ∧ FileStore.writeAt file.file (bytes.take file.readBytes) file.offset
      s.files = .ok (q, o.machine.files) ∧ Moves kinds o n

end Machine

theorem Directory.has_iff {d : Directory .emulated} {a : VirtualAddress} {flag : PageFlag} :
    d.has a flag = true ↔ ∃ e, d.entries.get? a.value = some e ∧ e.flags.has flag = true := by
  constructor
  · intro h
    obtain ⟨e, he⟩ := exists_entry_of_has h
    refine ⟨e, he, ?_⟩
    simpa [has, flags, get?, he] using h
  · rintro ⟨e, he, h⟩
    simpa [has, flags, get?, he] using h

section

variable {m n o : Moment} {l : Label} {kinds more : Label → Prop} {pl : Place} {p : Page}
  {f : FrameId} {file : FileBacking} {bytes : Bytes}

namespace Machine.Offers

theorem mono (h : Offers kinds pl file m n) (hk : ∀ l, kinds l → more l) :
    Offers more pl file m n := by
  obtain ⟨s, o, l, bytes, q, hbefore, hsoiled, hl, hmove, hwrite, hafter⟩ := h
  exact ⟨s, o, l, bytes, q, hbefore.mono hk, hsoiled, hk l hl, hmove, hwrite, hafter.mono hk⟩

theorem head (hmoves : Moves kinds m o) (h : Offers kinds pl file o n) :
    Offers kinds pl file m n := by
  obtain ⟨s, o, l, bytes, q, hbefore, hrest⟩ := h
  exact ⟨s, o, l, bytes, q, hmoves.trans hbefore, hrest⟩

theorem trans (h : Offers kinds pl file m o) (hmoves : Moves kinds o n) :
    Offers kinds pl file m n := by
  obtain ⟨s, o, l, bytes, q, hbefore, hsoiled, hl, hmove, hwrite, hafter⟩ := h
  exact ⟨s, o, l, bytes, q, hbefore, hsoiled, hl, hmove, hwrite, hafter.trans hmoves⟩

end Machine.Offers

/-- A page that has a frame is another one than a page without. -/
theorem ne_of_absent {s : Machine} {other : Place} {sp : Space} {q : Page}
    (hp : pageAt s.spaces pl = some p) (hf : p.frame = some f)
    (hs : s.spaces.get? other.space = some sp) (hq : sp.pages.pages.get? other.key = some q)
    (habs : q.frame = none) : other ≠ pl := by
  rintro rfl
  rw [Coherent.pageAt_eq hs hq] at hp
  cases hp
  rw [hf] at habs
  cases habs

/-- A page that has a frame stays as it is until it loses the frame. -/
theorem Coherent.page_kept (h : Coherent m) (hmove : Move l m n)
    (hp : pageAt m.machine.spaces pl = some p) (hf : p.frame = some f) (hevict : l ≠ .evict pl)
    (hunseat : l ≠ .unseat pl p) : pageAt n.machine.spaces pl = some p := by
  have hother : ∀ {other q}, pageAt n.machine.spaces = update (pageAt m.machine.spaces) other q →
      other ≠ pl → pageAt n.machine.spaces pl = some p := by
    intro other q hn hne
    rw [hn, update_of_ne (Ne.symm hne), hp]
  cases hmove with
  | note | turn | take | giveBack | scribble | request | handles | outside | switch | pin | spare
  | attempt | store => exact hp
  | mark hs | soil hs | adjust hs | number hs | record hs | unrecord hs =>
    refine Eq.trans (congrFun (pageAt_insert_of_eq hs ?_) pl) hp
    rfl
  | evict _ _ hs =>
    refine hother (Coherent.pageAt_put hs _ rfl) ?_
    rintro rfl
    exact hevict rfl
  | populate _ hs hq habs | lose _ hs hq habs | seat _ hs hq habs =>
    exact hother (Coherent.pageAt_put hs _ rfl) (ne_of_absent hp hf hs hq habs)
  | unseat _ hs hq =>
    refine hother (Coherent.pageAt_put hs _ rfl) ?_
    rintro rfl
    have hq := (pageAt_of_get? hs _).trans hq
    have hp : pageAt _ _ = some p := hp
    rw [hq] at hp
    cases hp
    exact hunseat rfl
  | register hs hvacant =>
    refine hother (Coherent.pageAt_put hs _ rfl) ?_
    rintro rfl
    have hnone := (pageAt_of_get? hs _).trans hvacant
    have hp : pageAt _ _ = some p := hp
    rw [hnone] at hp
    cases hp
  | remove hs hq habs => exact hother (Coherent.pageAt_erase hs rfl) (ne_of_absent hp hf hs hq habs)
  | create => exact (congrFun (pageAt_insert_new (h.fresh _ (Nat.le_refl _))) pl).trans hp
  | drop hs hempty => exact (congrFun (pageAt_erase_empty hs hempty) pl).trans hp

theorem entryAt_insert_self (spaces : Table Space) (pl : Place) (u : Space) :
    entryAt (spaces.insert pl.space u) pl = u.directory.entries.get? pl.key :=
  entryAt_of_get? (Table.get?_insert_self ..) _

/-- A directory that changes at one page only. -/
theorem entryAt_elsewhere {spaces : Table Space} {other : Place} {sp u : Space}
    (hs : spaces.get? other.space = some sp) (hne : other ≠ pl)
    (hsame : ∀ key ≠ other.key,
      u.directory.entries.get? key = sp.directory.entries.get? key) :
    entryAt (spaces.insert other.space u) pl = entryAt spaces pl :=
  entryAt_insert_of_same hs fun hspace => hsame _ fun hkey =>
    hne (Place.ext hspace.symm hkey.symm)

/-- A directory keeps its dirty pages when a flag is set in it. -/
theorem dirty_of_set {spaces : Table Space} {id : SpaceId} {sp : Space} {a : VirtualAddress}
    {flag : PageFlag} {up : Bool} {e : PageEntry .emulated} (hs : spaces.get? id = some sp)
    (he : entryAt spaces pl = some e) (hd : e.flags.has .dirty = true)
    (hstays : flag = .dirty → up = true) :
    ∃ e', entryAt (spaces.insert id { sp with directory := sp.directory.set a flag up }) pl =
      some e' ∧ e'.flags.has .dirty = true := by
  by_cases hself : pl = ⟨id, a.value⟩
  · subst hself
    refine ⟨e.setFlags (e.flags.set flag up), ?_, ?_⟩
    · rw [entryAt_of_get? hs] at he
      refine (entryAt_of_get? (Table.get?_insert_self ..) _).trans ?_
      refine (Table.get?_modify ..).trans ?_
      rw [if_pos rfl, he, Option.map_some]
    · rw [PageEntry.has_flags_setFlags, PageFlags.has_set]
      split
      · rename_i hflag
        exact hstays hflag.symm
      · exact hd
  · have hs : spaces.get? (Place.mk id a.value).space = some sp := hs
    refine ⟨e, (entryAt_elsewhere hs (Ne.symm hself) fun key hkey => ?_).trans he, hd⟩
    exact (Table.get?_modify ..).trans (if_neg hkey)

/-- A page that has a frame stays dirty until it loses the frame. -/
theorem Coherent.dirty_kept (h : Coherent m) (hmove : Move l m n)
    (hp : pageAt m.machine.spaces pl = some p) (hf : p.frame = some f) (hevict : l ≠ .evict pl)
    (hunseat : l ≠ .unseat pl p) {e : PageEntry .emulated}
    (he : entryAt m.machine.spaces pl = some e) (hd : e.flags.has .dirty = true) :
    ∃ e', entryAt n.machine.spaces pl = some e' ∧ e'.flags.has .dirty = true := by
  cases hmove with
  | note | turn | take | giveBack | scribble | request | handles | outside | switch | pin | spare
  | attempt | store => exact ⟨e, he, hd⟩
  | adjust hs | number hs | record hs | unrecord hs | register hs | remove hs | lose _ hs =>
    refine ⟨e, Eq.trans (congrFun (entryAt_insert_of_eq hs ?_) pl) he, hd⟩
    rfl
  | mark hs _ _ _ _ _ hdirty => exact dirty_of_set hs he hd fun hflag => absurd hflag hdirty
  | soil hs => exact dirty_of_set hs he hd fun _ => rfl
  | @evict s other _ _ _ _ _ _ _ hs =>
    have hne : other ≠ pl := by
      rintro rfl
      exact hevict rfl
    refine ⟨e, (entryAt_elsewhere hs hne fun key hkey => ?_).trans he, hd⟩
    exact (Table.get?_erase ..).trans (if_neg hkey)
  | populate _ hs hq habs _ _ hmap =>
    obtain ⟨-, e', -, rfl⟩ := Directory.map_eq_ok.1 hmap
    have hne := ne_of_absent hp hf hs hq habs
    refine ⟨e, (entryAt_elsewhere hs hne fun key hkey => ?_).trans he, hd⟩
    refine (Table.get?_modify ..).trans ((if_neg hkey).trans ?_)
    exact (Table.get?_insert ..).trans (if_neg hkey)
  | seat _ hs hq habs _ hmap =>
    obtain ⟨-, e', -, rfl⟩ := Directory.map_eq_ok.1 hmap
    have hne := ne_of_absent hp hf hs hq habs
    refine ⟨e, (entryAt_elsewhere hs hne fun key hkey => ?_).trans he, hd⟩
    exact (Table.get?_insert ..).trans (if_neg hkey)
  | @unseat s other _ _ _ q _ hs hq =>
    have hne : other ≠ pl := by
      rintro rfl
      have hq := Coherent.pageAt_eq hs hq
      have hp : pageAt s.spaces other = some p := hp
      rw [hq] at hp
      cases hp
      exact hunseat rfl
    refine ⟨e, (entryAt_elsewhere hs hne fun key hkey => ?_).trans he, hd⟩
    exact (Table.get?_erase ..).trans (if_neg hkey)
  | create => exact ⟨e, (congrFun (entryAt_insert_new (h.fresh _ (Nat.le_refl _))) pl).trans he, hd⟩
  | @drop s held id sp hs hempty =>
    have hne : pl.space ≠ id := by
      rintro rfl
      have hp : pageAt s.spaces pl = some p := hp
      rw [pageAt, hs, Option.bind_some, hempty] at hp
      cases hp
    refine ⟨e, ?_, hd⟩
    show entryAt (s.spaces.erase id) pl = some e
    rw [entryAt, Table.get?_erase, if_neg hne]
    exact he

/-- What is soiled stays soiled unless it is moved out or its mapping is taken away. -/
theorem Coherent.soiled_kept (h : Coherent m) (hmove : Move l m n)
    (hs : m.machine.Soiled pl file bytes) (hevict : l ≠ .evict pl)
    (hunseat : ∀ p, l = .unseat pl p → p.mapping ≠ file.mapping) :
    ∃ bytes', n.machine.Soiled pl file bytes' ∧
      ((∀ start source, l ≠ .store pl start source) → bytes' = bytes) := by
  obtain ⟨p, f, e, hp, hk, hf, he, hd, hbytes⟩ := hs
  have hmapping : p.mapping = file.mapping := by rw [Page.mapping, hk]
  have hunseat : l ≠ .unseat pl p := fun hl => hunseat p hl hmapping
  have hp' := h.page_kept hmove hp hf hevict hunseat
  obtain ⟨e', he', hd'⟩ := h.dirty_kept hmove hp hf hevict hunseat he hd
  refine ⟨_, ⟨p, f, e', hp', hk, hf, he', hd', rfl⟩, fun hl => ?_⟩
  rw [h.frameBytes_kept hmove hp hf hl, hbytes]

/-- A dirty page is not moved out before its file was asked to take it. -/
theorem Coherent.offers_evict (h : Coherent m) (hmove : Move (.evict pl) m n)
    (hs : m.machine.Soiled pl file bytes) (hl : kinds (.evict pl)) :
    Machine.Offers kinds pl file m n := by
  have hmoved := hmove
  have hsoiled := hs
  obtain ⟨p, f, e, hp, hk, hres, he, hd, rfl⟩ := hs
  cases hmove with
  | @evict s _ g fr sp q t hg ho hsp hq hout =>
    have hpage : pageAt s.spaces pl = some q := pageAt_eq hsp hq
    have hp : pageAt s.spaces pl = some p := hp
    rw [hpage] at hp
    cases hp
    have hframe := h.resident_of_owner hg ho hsp hq
    rw [hres] at hframe
    cases hframe
    have hdirty : sp.directory.has pl.address .dirty = true :=
      Directory.has_iff.2 ⟨e, (entryAt_of_get? hsp pl.key).symm.trans he, hd⟩
    rw [hdirty, Transfer.evict_dirty hk] at hout
    obtain ⟨-, q, hwrite, -⟩ := Transfer.writeBack_spec hout
    refine ⟨s, _, _, _, q, .refl, hsoiled, hl, hmoved, ?_, .refl⟩
    rw [Machine.frameBytes_of_get? hg]
    exact hwrite

/-- On any way a soiled page stays soiled, or its file is asked to take it. -/
theorem Coherent.soiled_moves (h : Coherent m) (hmoves : Moves kinds m n)
    (hs : m.machine.Soiled pl file bytes)
    (hunseat : ∀ p, kinds (.unseat pl p) → p.mapping ≠ file.mapping) :
    (∃ bytes', n.machine.Soiled pl file bytes') ∨ Machine.Offers kinds pl file m n := by
  have hboth := h.preserves (P := fun o => Moves kinds m o ∧
    ((∃ bytes', o.machine.Soiled pl file bytes') ∨ Machine.Offers kinds pl file m o)) hmoves ?_
    ⟨.refl, .inl ⟨bytes, hs⟩⟩
  · exact hboth.2
  · intro l o u hl ho ⟨hbefore, hstate⟩ hmove
    refine ⟨hbefore.tail hmove hl, ?_⟩
    rcases hstate with ⟨bytes', hsoiled⟩ | hoffers
    · by_cases hevict : l = .evict pl
      · subst hevict
        exact .inr ((ho.offers_evict hmove hsoiled hl).head hbefore)
      · obtain ⟨after, hafter, -⟩ := ho.soiled_kept hmove hsoiled hevict fun p hp =>
          hunseat p (hp ▸ hl)
        exact .inl ⟨after, hafter⟩
    · exact .inr (hoffers.trans (.single hmove hl))

/-- Moves that neither store to a page nor take it leave it soiled as it is. -/
theorem Coherent.soiled_still (h : Coherent m) (hmoves : Moves kinds m n)
    (hs : m.machine.Soiled pl file bytes) (hevict : ¬ kinds (.evict pl))
    (hstore : ∀ start source, ¬ kinds (.store pl start source))
    (hunseat : ∀ p, kinds (.unseat pl p) → p.mapping ≠ file.mapping) :
    n.machine.Soiled pl file bytes := by
  refine h.preserves (P := fun o => o.machine.Soiled pl file bytes) hmoves ?_ hs
  intro l o u hl ho hsoiled hmove
  obtain ⟨bytes', hafter, hsame⟩ := ho.soiled_kept hmove hsoiled (fun hlabel => hevict (hlabel ▸ hl))
    fun p hp => hunseat p (hp ▸ hl)
  rw [hsame fun start source hlabel => hstore start source (hlabel ▸ hl)] at hafter
  exact hafter

end
end Pager
