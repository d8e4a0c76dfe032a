import Pager.Proofs.Lookup
import Pager.Proofs.Translation

/-!
The links between pages, frames and directory entries. A resident page and its
frame name each other and the directory shows the frame; nothing else is in the
directory. Between two operations every tracked frame backs a page. Within one
the operation may have a single frame in hand that backs none: `take` and
`unseat` pick it up, `seat` and `release` put it down.
-/
namespace Pager

open Function

variable {pages : Place → Option Page} {entries : Place → Option (PageEntry .emulated)}
  {frames : FrameId → Option Frame} {held : Option FrameId}
  {pl : Place} {f : FrameId} {fr : Frame} {e : PageEntry .emulated}

structure Linked (pages : Place → Option Page) (entries : Place → Option (PageEntry .emulated))
    (frames : FrameId → Option Frame) (held : Option FrameId) : Prop where
  keyed : ∀ {pl p}, pages pl = some p → p.address = pl.address ∧ pl.key % pageSize = 0
  owner_page : ∀ {f fr o}, frames f = some fr → fr.owner = some o →
    ∃ p, pages ⟨o.space, o.page.value⟩ = some p ∧ p.frame = some f
  held_iff : ∀ {f fr}, frames f = some fr → (fr.owner = none ↔ held = some f)
  page_frame : ∀ {pl p f}, pages pl = some p → p.frame = some f →
    ∃ fr e, frames f = some fr ∧ fr.owner = some pl.owner ∧
      entries pl = some e ∧ e.Shows fr.address p.writable
  entry_page : ∀ {pl e}, entries pl = some e → ∃ p f, pages pl = some p ∧ p.frame = some f
  ready : ∀ {pl p f}, pages pl = some p → p.frame = some f →
    p.isInitialized = true ∧ p.slot = none

namespace Linked

/-- Two places whose pages lie in one frame are the same place. -/
theorem place_unique (h : Linked pages entries frames held) {pl' : Place} {p p' : Page}
    (hp : pages pl = some p) (hf : p.frame = some f)
    (hp' : pages pl' = some p') (hf' : p'.frame = some f) : pl = pl' := by
  obtain ⟨fr, -, hfr, ho, -⟩ := h.page_frame hp hf
  obtain ⟨fr', -, hfr', ho', -⟩ := h.page_frame hp' hf'
  rw [hfr] at hfr'
  cases hfr'
  rw [ho] at ho'
  obtain ⟨space, key⟩ := pl
  obtain ⟨space', key'⟩ := pl'
  simpa [Place.owner, Place.address] using ho'

theorem frame_ne_held (h : Linked pages entries frames held) {p : Page} {g : FrameId}
    (hp : pages pl = some p) (hf : p.frame = some f) (hg : held = some g) : f ≠ g := by
  rintro rfl
  obtain ⟨fr, -, hfr, ho, -⟩ := h.page_frame hp hf
  rw [(h.held_iff hfr).2 hg] at ho
  cases ho

theorem entry_none (h : Linked pages entries frames held)
    (hp : ∀ p, pages pl = some p → p.frame = none) : entries pl = none := by
  cases he : entries pl with
  | none => rfl
  | some e =>
    obtain ⟨p, f, hp', hf⟩ := h.entry_page he
    rw [hp p hp'] at hf
    cases hf

/-- Pages stay under their keys if the one that is put at a place belongs there. -/
theorem keyed_update (h : Linked pages entries frames held) {page : Option Page}
    (hnew : ∀ p, page = some p → p.address = pl.address ∧ pl.key % pageSize = 0) {pl' : Place}
    {q : Page} (hq : update pages pl page pl' = some q) :
    q.address = pl'.address ∧ pl'.key % pageSize = 0 := by
  rw [update_apply] at hq
  split at hq
  · rename_i eq
    subst eq
    exact hnew q hq
  · exact h.keyed hq

/-- Resident pages stay ready if the one that is put at a place is so, or not resident. -/
theorem ready_update (h : Linked pages entries frames held) {page : Option Page}
    (hnew : ∀ p g, page = some p → p.frame = some g → p.isInitialized = true ∧ p.slot = none)
    {pl' : Place} {q : Page} {g : FrameId} (hq : update pages pl page pl' = some q)
    (hg : q.frame = some g) : q.isInitialized = true ∧ q.slot = none := by
  rw [update_apply] at hq
  split at hq
  · exact hnew q g hq hg
  · exact h.ready hq hg

/-- A frame fresh from the pool comes to hand. -/
theorem take (h : Linked pages entries frames none) (hf : frames f = none)
    (address : PhysicalAddress) :
    Linked pages entries (update frames f (some { address })) (some f) where
  keyed := h.keyed
  owner_page := by
    intro g gr o hg ho
    rw [update_apply] at hg
    split at hg
    · cases hg
      cases ho
    · exact h.owner_page hg ho
  held_iff := by
    intro g gr hg
    rw [update_apply] at hg
    split at hg
    · rename_i e
      cases hg
      simp [e]
    · rename_i ne
      have := h.held_iff hg
      simp [this, Ne.symm ne]
  page_frame := by
    intro pl p g hp hg
    obtain ⟨gr, e, hgr, rest⟩ := h.page_frame hp hg
    have hne : g ≠ f := by
      rintro rfl
      rw [hf] at hgr
      cases hgr
    exact ⟨gr, e, by rw [update_of_ne hne, hgr], rest⟩
  entry_page := h.entry_page
  ready := h.ready

/-- The frame in hand goes back to the pool. -/
theorem release (h : Linked pages entries frames (some f)) :
    Linked pages entries (update frames f none) none where
  keyed := h.keyed
  owner_page := by
    intro g gr o hg ho
    rw [update_apply] at hg
    split at hg
    · cases hg
    · exact h.owner_page hg ho
  held_iff := by
    intro g gr hg
    rw [update_apply] at hg
    split at hg
    · cases hg
    · rename_i ne
      rw [h.held_iff hg]
      simp [Ne.symm ne]
  page_frame := by
    intro pl p g hp hg
    obtain ⟨gr, e, hgr, rest⟩ := h.page_frame hp hg
    have hne : g ≠ f := h.frame_ne_held hp hg rfl
    exact ⟨gr, e, by rw [update_of_ne hne, hgr], rest⟩
  entry_page := h.entry_page
  ready := h.ready

/-- A page without a frame moves into the frame in hand. -/
theorem seat (h : Linked pages entries frames (some f)) {old p : Page}
    (hold : pages pl = some old) (hn : old.frame = none) (hf : frames f = some fr)
    (ha : p.address = old.address) (hp : p.frame = some f)
    (hi : p.isInitialized = true) (hs : p.slot = none) (he : e.Shows fr.address p.writable) :
    Linked (update pages pl (some p)) (update entries pl (some e))
      (update frames f (some { fr with owner := some pl.owner })) none where
  keyed := h.keyed_update fun q hq => by
    cases hq
    rw [ha]
    exact h.keyed hold
  owner_page := by
    intro g gr o hg ho
    rw [update_apply] at hg
    split at hg
    · rename_i eq
      cases hg
      cases ho
      subst eq
      exact ⟨p, update_self .., hp⟩
    · rename_i ne
      obtain ⟨q, hq, hqf⟩ := h.owner_page hg ho
      refine ⟨q, ?_, hqf⟩
      rw [update_of_ne, hq]
      rintro rfl
      rw [hold] at hq
      cases hq
      rw [hn] at hqf
      cases hqf
  held_iff := by
    intro g gr hg
    rw [update_apply] at hg
    split at hg
    · cases hg
      simp
    · rename_i ne
      rw [h.held_iff hg]
      simp [Ne.symm ne]
  page_frame := by
    intro pl' q g hq hg
    rw [update_apply] at hq
    split at hq
    · rename_i eq
      cases hq
      rw [hp] at hg
      cases hg
      subst eq
      exact ⟨_, e, update_self .., rfl, update_self .., he⟩
    · rename_i ne
      obtain ⟨gr, e', hgr, ho, he', hshow⟩ := h.page_frame hq hg
      have hne : g ≠ f := h.frame_ne_held hq hg rfl
      exact ⟨gr, e', by rw [update_of_ne hne, hgr], ho, by rw [update_of_ne ne, he'], hshow⟩
  entry_page := by
    intro pl' e' he'
    rw [update_apply] at he'
    split at he'
    · rename_i eq
      subst eq
      exact ⟨p, f, update_self .., hp⟩
    · rename_i ne
      obtain ⟨q, g, hq, hg⟩ := h.entry_page he'
      exact ⟨q, g, by rw [update_of_ne ne, hq], hg⟩
  ready := h.ready_update fun q g hq _ => by
    cases hq
    exact ⟨hi, hs⟩

/-- A resident page loses its frame, which comes to hand unpinned. -/
theorem unseat (h : Linked pages entries frames none) {old p : Page}
    (hold : pages pl = some old) (hof : old.frame = some f) (hf : frames f = some fr)
    (ha : p.address = old.address) (hp : p.frame = none) :
    Linked (update pages pl (some p)) (update entries pl none)
      (update frames f (some { fr with owner := none, pinned := false })) (some f) where
  keyed := h.keyed_update fun q hq => by
    cases hq
    rw [ha]
    exact h.keyed hold
  owner_page := by
    intro g gr o hg ho
    rw [update_apply] at hg
    split at hg
    · cases hg
      cases ho
    · rename_i ne
      obtain ⟨q, hq, hqf⟩ := h.owner_page hg ho
      refine ⟨q, ?_, hqf⟩
      rw [update_of_ne, hq]
      rintro rfl
      rw [hold] at hq
      cases hq
      rw [hof] at hqf
      cases hqf
      exact ne rfl
  held_iff := by
    intro g gr hg
    rw [update_apply] at hg
    split at hg
    · rename_i eq
      cases hg
      simp [eq]
    · rename_i ne
      rw [h.held_iff hg]
      simp [Ne.symm ne]
  page_frame := by
    intro pl' q g hq hg
    rw [update_apply] at hq
    split at hq
    · cases hq
      rw [hp] at hg
      cases hg
    · rename_i ne
      obtain ⟨gr, e', hgr, ho, he', hshow⟩ := h.page_frame hq hg
      have hne : g ≠ f := by
        rintro rfl
        exact ne (h.place_unique hq hg hold hof)
      exact ⟨gr, e', by rw [update_of_ne hne, hgr], ho, by rw [update_of_ne ne, he'], hshow⟩
  entry_page := by
    intro pl' e' he'
    rw [update_apply] at he'
    split at he'
    · cases he'
    · rename_i ne
      obtain ⟨q, g, hq, hg⟩ := h.entry_page he'
      exact ⟨q, g, by rw [update_of_ne ne, hq], hg⟩
  ready := h.ready_update fun q g hq hg => by
    cases hq
    cases hp.symm.trans hg

/-- A place without a resident page gets a page that is not resident, or none. -/
theorem change (h : Linked pages entries frames held) {page : Option Page}
    (hold : ∀ p, pages pl = some p → p.frame = none)
    (hnew : ∀ p, page = some p →
      p.frame = none ∧ p.address = pl.address ∧ pl.key % pageSize = 0) :
    Linked (update pages pl page) entries frames held where
  keyed := h.keyed_update fun q hq => (hnew q hq).2
  owner_page := by
    intro g gr o hg ho
    obtain ⟨q, hq, hqf⟩ := h.owner_page hg ho
    refine ⟨q, ?_, hqf⟩
    rw [update_of_ne, hq]
    rintro rfl
    rw [hold q hq] at hqf
    cases hqf
  held_iff := h.held_iff
  page_frame := by
    intro pl' q g hq hg
    rw [update_apply] at hq
    split at hq
    · rw [(hnew q hq).1] at hg
      cases hg
    · exact h.page_frame hq hg
  entry_page := by
    intro pl' e' he'
    obtain ⟨q, g, hq, hg⟩ := h.entry_page he'
    refine ⟨q, g, ?_, hg⟩
    rw [update_of_ne, hq]
    rintro rfl
    rw [hold q hq] at hg
    cases hg
  ready := h.ready_update fun q g hq hg => by
    cases (hnew q hq).1.symm.trans hg

/-- Bits of an entry change that have no part in the translation. -/
theorem mark (h : Linked pages entries frames held) {old : PageEntry .emulated}
    (hold : entries pl = some old)
    (he : ∀ address writable, old.Shows address writable → e.Shows address writable) :
    Linked pages (update entries pl (some e)) frames held where
  keyed := h.keyed
  owner_page := h.owner_page
  held_iff := h.held_iff
  page_frame := by
    intro pl' q g hq hg
    obtain ⟨gr, e', hgr, ho, he', hshow⟩ := h.page_frame hq hg
    by_cases eq : pl' = pl
    · subst eq
      rw [hold] at he'
      cases he'
      exact ⟨gr, e, hgr, ho, update_self .., he _ _ hshow⟩
    · exact ⟨gr, e', hgr, ho, by rw [update_of_ne eq, he'], hshow⟩
  entry_page := by
    intro pl' e' he'
    rw [update_apply] at he'
    split at he'
    · rename_i eq
      subst eq
      exact h.entry_page hold
    · exact h.entry_page he'
  ready := h.ready

theorem pin (h : Linked pages entries frames held) (hf : frames f = some fr) (b : Bool) :
    Linked pages entries (update frames f (some { fr with pinned := b })) held where
  keyed := h.keyed
  owner_page := by
    intro g gr o hg ho
    rw [update_apply] at hg
    split at hg
    · rename_i eq
      cases hg
      subst eq
      exact h.owner_page hf ho
    · exact h.owner_page hg ho
  held_iff := by
    intro g gr hg
    rw [update_apply] at hg
    split at hg
    · rename_i eq
      cases hg
      subst eq
      have same := h.held_iff hf
      exact same
    · exact h.held_iff hg
  page_frame := by
    intro pl' q g hq hg
    obtain ⟨gr, e', hgr, ho, he', hshow⟩ := h.page_frame hq hg
    by_cases eq : g = f
    · subst eq
      rw [hf] at hgr
      cases hgr
      exact ⟨_, e', update_self .., ho, he', hshow⟩
    · exact ⟨gr, e', by rw [update_of_ne eq, hgr], ho, he', hshow⟩
  entry_page := h.entry_page
  ready := h.ready

end Linked
end Pager
