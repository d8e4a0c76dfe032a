import Pager.Proofs.Ageing

/-!
Pages of files, one at a time. Such a page stands for a part of its file from the time it is
registered on. It is loaded from there whenever it is moved in, and as long as nobody else
changes that part, it keeps what it holds when it is moved out: the bytes of the part in the
file, while those behind the part are lost.
-/
namespace Pager

open Function

/-- The part of a file that the page stands for, also before it is populated. -/
def Page.backing? (p : Page) : Option FileBacking :=
  match p.kind with
  | .unpopulated u =>
    match u.populated with
    | .ok (.fileBacked file) => some file
    | _ => none
  | .anonymous _ => none
  | .fileBacked file => some file

theorem Page.backing?_of_anonymous {p : Page} (h : p.type = .anonymous) : p.backing? = none := by
  unfold Page.backing?
  cases hk : p.kind with
  | unpopulated u =>
    rw [Page.type, hk] at h
    simp [Unpopulated.populated, show u.target = .anonymous from h]
  | anonymous => rfl
  | fileBacked file =>
    rw [Page.type, hk] at h
    cases h

theorem Page.Ages.backing? {p q : Page} (h : p.Ages q) : q.backing? = p.backing? := by
  cases htype : p.type with
  | anonymous => rw [Page.backing?_of_anonymous htype, Page.backing?_of_anonymous (h.type.trans htype)]
  | fileBacked =>
    rcases h.slice htype with hkind | ⟨u, hu, hkind⟩
    · rw [Page.backing?, Page.backing?, hkind]
    · rcases Transfer.populated_kind hkind with ⟨htarget, -⟩ | ⟨-, file, -, hfilled⟩
      · rw [Page.type, hu] at htype
        cases htarget.symm.trans htype
      · rw [Page.backing?, Page.backing?, hu, hfilled]
        dsimp only
        rw [hkind, hfilled]

namespace FileBacking

variable {file other : FileBacking} {p q : Page}

/-- The two parts have a byte of a file in common. -/
def Meets (file other : FileBacking) : Prop :=
  file.file.file = other.file.file ∧
    ∃ i < file.readBytes, ∃ j < other.readBytes, file.offset + i = other.offset + j

/-- The page is loaded from its part of the file whenever it is moved in, also the first time. -/
def Fills (file : FileBacking) (p : Page) : Prop :=
  p.backing? = some file ∧ ∀ u, p.kind = .unpopulated u → u.initializer = .fileSlice

theorem Fills.ages (h : file.Fills p) (hages : p.Ages q) : file.Fills q :=
  ⟨hages.backing?.trans h.1, fun u hu => h.2 u (hages.waits u hu)⟩

theorem Fills.kind (h : file.Fills p) (hinit : p.isInitialized = true) :
    p.kind = .fileBacked file := by
  have hback := h.1
  unfold Page.backing? at hback
  unfold Page.isInitialized at hinit
  cases hk : p.kind with
  | unpopulated u =>
    rw [hk] at hinit
    cases hinit
  | anonymous =>
    rw [hk] at hback
    cases hback
  | fileBacked =>
    rw [hk] at hback
    exact congrArg PageKind.fileBacked (Option.some.inj hback)

/-- It is filled with its part of the file, and with zeros after it. -/
theorem Fills.loaded (h : file.Fills p) {frame : Bytes} {swap : SwapTable} {files : FileStore}
    {t : Transfer} (ht : Transfer.Populated ⟨p, frame, swap, files, []⟩ t) :
    ∃ found, files.file? file.file = some found ∧
      (found.data.slice file.offset file.readBytes).length = file.readBytes ∧
      t.frame = found.data.slice file.offset file.readBytes ++
        .zeros (frame.length - file.readBytes) := by
  obtain ⟨hback, hwaits⟩ := h
  unfold Page.backing? at hback
  cases ht with
  | @first u filled kind hk hfills hkind =>
    have hk : p.kind = .unpopulated u := hk
    rw [hk] at hback
    dsimp only at hback
    rw [hkind] at hback
    rw [hwaits u hk] at hfills
    obtain ⟨v, hload, rfl⟩ := Transfer.fill_eq_ok.1 hfills
    rw [Transfer.initFrame_fileSlice] at hload
    rcases Transfer.populated_kind hkind with ⟨-, rfl⟩ | ⟨-, handle, hhandle, rfl⟩
    · cases hback
    · cases Option.some.inj hback
      rw [Transfer.loadSlice, hhandle] at hload
      exact Transfer.load_ok hload
  | blank hk | back hk =>
    rw [show p.kind = _ from hk] at hback
    cases hback
  | reload hk hload =>
    rw [show p.kind = _ from hk] at hback
    cases Option.some.inj hback
    exact Transfer.load_ok hload

end FileBacking

/-- A page that is moved in shows what it was filled with. -/
theorem Coherent.populated {m n : Moment} {pl : Place} (h : Coherent m)
    (hmove : Move (.populate pl) m n) : ∃ p f frame t, pageAt m.machine.spaces pl = some p ∧
      p.frame = none ∧ frame.length = pageSize ∧
      Transfer.Populated ⟨p, frame, m.machine.swap, m.machine.files, []⟩ t ∧
      pageAt n.machine.spaces pl = some { t.page with frame := some f } ∧
      n.machine.frameBytes f = t.frame := by
  cases hmove with
  | @populate s _ f fr sp p t pool directory hg hs hp habs hfill hw hmap =>
    have hlen := h.length_frame hg
    rcases Transfer.populate_eq_ok h.swap hlen hfill with ⟨-, ht⟩ | ⟨e, he, -⟩
    · refine ⟨p, f, _, t, Coherent.pageAt_eq hs hp, habs, hlen, ht, ?_, ?_⟩
      · exact (congrFun (Coherent.pageAt_put hs _ rfl) pl).trans (update_self ..)
      · refine (congrFun ((h.write hw).frameBytes_put hg _ ?_) f).trans ?_
        · rfl
        · have hlength := (ht.spec h.swap hlen).2.2.2.1
          rw [h.frameBytes_write hg hw, update_self, Machine.frameBytes_of_get? hg,
            Bytes.overlay_zero (hlength.trans hlen.symm)]
    · cases he

end Pager
