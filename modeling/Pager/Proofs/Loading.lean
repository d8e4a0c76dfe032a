import Pager.Proofs.Failing
import Pager.Proofs.Initializing
import Pager.Proofs.Overrun
import Pager.Proofs.Segments

/-!
Loading a segment page by page. A page whose bytes are not all in the file stays as it was
registered: its initializer fails whenever it is run. The other pages are loaded with their part
of the file. Whatever becomes of the pages then, they are memory, so no file is ever asked to
take what is stored to them, and what is read from them is the file's bytes with zeros behind.
-/
namespace Pager

open Machine

/-- A read from an offset fails neither nor is it cut short, but for the end of the file. -/
def FileStore.Readable (store : FileStore) (handle : Handle) (offset count : Nat) : Prop :=
  ∃ file, store.file? handle = some file ∧ file.failReads offset = false ∧
    ∀ most, file.maxRead offset = some most → count ≤ most

theorem FileStore.Readable.read {store after : FileStore} {handle : Handle} {offset count : Nat}
    {r : Except StoreError Bytes} (h : store.Readable handle offset count)
    (run : readAt handle count offset store = .ok (r, after)) :
    ∃ file, store.file? handle = some file ∧ r = .ok (file.data.slice offset count) := by
  obtain ⟨file, hfile, hfail, hmost⟩ := h
  have hcapped : File.capped count (file.maxRead offset) = count := by
    cases hlimit : file.maxRead offset with
    | none => rfl
    | some most => exact Nat.min_eq_left (hmost most hlimit)
  rcases readAt_cases run with ⟨hnone, -, -⟩ | ⟨found, hfound, rfl, -⟩
  · cases hfile.symm.trans hnone
  · cases hfile.symm.trans hfound
    refine ⟨file, hfile, ?_⟩
    rw [File.readAt, hfail, if_neg Bool.false_ne_true, hcapped]

namespace Transfer

variable {t u : Transfer} {handle : Handle} {offset count : Nat} {r : Except PagerError Unit}

/-- A read that works comes back short if the file has not all of the bytes, and only then. -/
theorem load_readable (h : t.files.Readable handle offset count)
    (run : load handle offset count t = .ok (r, u)) : ∃ file, t.files.file? handle = some file ∧
      r = if (file.data.slice offset count).length = count then .ok ()
        else .error (.store .shortRead) := by
  cases load_loads run with
  | refused read =>
    obtain ⟨file, -, hr⟩ := h.read read
    cases hr
  | short read missing =>
    obtain ⟨file, hfile, hr⟩ := h.read read
    cases hr
    exact ⟨file, hfile, (if_neg missing).symm⟩
  | full read length =>
    obtain ⟨file, hfile, hr⟩ := h.read read
    cases hr
    exact ⟨file, hfile, (if_pos length).symm⟩

end Transfer

section

variable {m n : Moment} {l : Label} {pl : Place} {p q : Page}

/-- A page that waits is filled with what its initializer can leave. -/
theorem Coherent.fills (h : Coherent m) (hmove : Move l m n) (hl : l = .populate pl ∨ l = .lose pl)
    (hp : pageAt m.machine.spaces pl = some p) (hq : pageAt n.machine.spaces pl = some q)
    {u : Unpopulated} (hk : p.kind = .unpopulated u) :
    q.isInitialized = true ∧ ∃ bytes, u.Fills m.machine.files bytes := by
  obtain ⟨bytes, t, hlen, hfill, hkind, -⟩ := h.filled hmove hl hp hq
  rcases Transfer.populate_eq_ok h.swap hlen hfill with ⟨-, ht⟩ | ⟨e, he, -⟩
  · refine ⟨by rw [Page.isInitialized, hkind, ← Page.isInitialized, (ht.spec h.swap hlen).2.1], ?_⟩
    cases ht with
    | @first page filled kind hpage hfills =>
      have hpage : p.kind = .unpopulated page := hpage
      cases hk.symm.trans hpage
      exact ⟨_, Transfer.fill_fills hlen hfills⟩
    | blank hpage | back hpage | reload hpage =>
      have hpage : p.kind = _ := hpage
      cases hk.symm.trans hpage
  · cases he

end

namespace Machine

variable {s t : Machine} {op : Op} {r : Except Failure Value}

/-- What comes of a claim of a page that waits, once a frame was found: its initializer fails and it
goes on waiting, or it is filled, and in the frame unless the directory refuses that. -/
theorem claim_waiting {id : SpaceId} {a : VirtualAddress} {u : Unpopulated} {f : FrameId}
    {w : Machine} (h : Coherent ⟨s, none⟩) (hwaits : s.Waits (.of id a) u)
    (hcount : u.slice.readBytes ≤ pageSize) (htarget : u.target = .anonymous)
    (hsearch : obtainFrame s = .ok (.ok f, w)) :
    ∃ q v p bytes r t, claim id a s = .ok (q, v) ∧ p.kind = .unpopulated u ∧
      Transfer.populate ⟨p, bytes, w.swap, w.files, []⟩ = .ok (r, t) ∧
      ((∃ e, r = .error e ∧ q = .error e ∧ v.Waits (.of id a) u) ∨
        r = .ok () ∧ ((∃ e, s.Refuses id e ∧ q = .error e) ∨
          q = .ok f ∧ ∃ filled, u.Fills w.files filled ∧
            v.flat (.of id a) = some (.holding filled))) := by
  obtain ⟨p, hp, hk, habs, hslotless⟩ := hwaits
  have hseek := obtainFrame_moves h hsearch
  have hw := h.moves hseek
  have hpage := pageAt_of_seeks h hseek hp habs
  have hfilled : ∀ {l m}, Move l ⟨w, some f⟩ m → (l = .populate (.of id a) ∨ l = .lose (.of id a)) →
      ∃ q bytes t, Pager.pageAt m.machine.spaces (.of id a) = some q ∧ q.isInitialized = true ∧
        Transfer.populate ⟨p, bytes, w.swap, w.files, []⟩ = .ok (.ok (), t) := by
    intro l m hmove hl
    rcases hw.page_after hmove hpage with rfl | ⟨q, hq, -⟩
    · rcases hl with hl | hl <;> cases hl
    · obtain ⟨bytes, t, -, hfill, -⟩ := hw.filled hmove hl hpage hq
      exact ⟨q, bytes, t, hq, (hw.fills hmove hl hpage hq hk).1, hfill⟩
  cases hrun : claim id a s with
  | error b =>
    obtain ⟨sp, hs, -⟩ := exists_space_of_pageAt hp
    rcases claim_bug_cases h hs hrun with hbug | ⟨p', f', t, bytes, hp', -, hsearch', hlen, hfill⟩
    · cases hsearch.symm.trans hbug
    · cases hp.symm.trans hp'
      cases hsearch.symm.trans hsearch'
      have hslot : ∀ n, p.slot = some n → w.swap.isUsed n = true := fun n hn => by
        cases hslotless.symm.trans hn
      obtain ⟨-, hlt⟩ := Transfer.populate_eq_bug hlen hslot hfill
      have hread : p.readBytes = u.slice.readBytes := by rw [Page.readBytes, hk]
      exact absurd (hread ▸ hlt) (Nat.not_lt.2 hcount)
  | ok outcome =>
    obtain ⟨q, v⟩ := outcome
    cases claim_cases h hrun with
    | unregistered hnone => cases hp.symm.trans hnone
    | resident hp' hres =>
      cases hp.symm.trans hp'
      cases habs.symm.trans hres
    | frameless _ _ hsearch' => cases hsearch.symm.trans hsearch'
    | abandoned hp' _ hsearch' _ hfill _ hmoves =>
      cases hp.symm.trans hp'
      cases hsearch.symm.trans hsearch'
      have hsame : Pager.pageAt v.spaces (.of id a) = some p := by
        rw [(abandons_cases hw hmoves).1]
        exact hpage
      exact ⟨_, v, p, _, _, _, rfl, hk, hfill,
        .inl ⟨_, rfl, rfl, p, hsame, hk, habs, hslotless⟩⟩
    | refused hp' _ hsearch' hs hrefuses _ hlost =>
      cases hp.symm.trans hp'
      cases hsearch.symm.trans hsearch'
      obtain ⟨m, hlost⟩ := hlost
      obtain ⟨-, bytes, t, -, -, hfill⟩ := hfilled hlost (.inr rfl)
      exact ⟨_, v, p, bytes, _, t, rfl, hk, hfill,
        .inr ⟨rfl, .inl ⟨_, (refuses_search h hsearch).1 ⟨_, hs, hrefuses⟩, rfl⟩⟩⟩
    | seated hp' _ hsearch' hmove =>
      cases hp.symm.trans hp'
      cases hsearch.symm.trans hsearch'
      obtain ⟨q, bytes, t, hq, hinit, hfill⟩ := hfilled hmove (.inl rfl)
      refine ⟨_, v, p, bytes, _, t, rfl, hk, hfill, .inr ⟨rfl, .inr ⟨rfl, ?_⟩⟩⟩
      have hcell : w.flat (.of id a) = some (.waiting u) := by
        rw [flat_of_page hpage, cell, hk]
        exact if_pos htarget
      rcases hw.flat_populate hmove with hflat | ⟨u', filled, hu, hfills, hflat⟩
      · -- a page that is populated does not wait
        rw [← hflat, flat_of_page hq, cell] at hcell
        cases hkind : q.kind with
        | unpopulated =>
          rw [Page.isInitialized_of_waits hkind] at hinit
          cases hinit
        | anonymous | fileBacked =>
          rw [hkind] at hcell
          cases hcell
      · cases hu.symm.trans hcell
        exact ⟨filled, hfills, by rw [hflat, Function.update_self]⟩

/-- What an operation asks files to take comes from the caller who writes to a file, or from a page
that was stored to. -/
theorem step_sends (h : Coherent ⟨s, none⟩) (run : step op s = .ok (r, t)) :
    ∃ calls, s.files.Logs calls t.files ∧ ∀ call ∈ calls,
      (∃ file offset bytes, op = .writeFile file offset bytes) ∨
        ∃ m pl, Moves (op.Makes s) ⟨s, none⟩ m ∧ m.machine.Sends pl call := by
  have hmoves := step_moves h run
  by_cases houtside : op.Makes s .outside
  · have hquiet : s.files.Logs [] t.files → ∃ calls, s.files.Logs calls t.files ∧ ∀ call ∈ calls,
        (∃ file offset bytes, op = .writeFile file offset bytes) ∨
          ∃ m pl, Moves (op.Makes s) ⟨s, none⟩ m ∧ m.machine.Sends pl call :=
      fun hlogs => ⟨[], hlogs, fun call hmem => by cases hmem⟩
    cases op with
    | openFile file =>
      apply hquiet
      rcases requireHeld_bind_eq_ok.1 run with ⟨-, hrun⟩ | ⟨-, -, rfl⟩
      · rcases onFiles_bind_eq_ok.1 hrun with ⟨_, files, hopen, hlast⟩ | ⟨_, files, hopen, -, rfl⟩
        · cases hlast
          exact .of_hold hopen
        · exact .of_hold hopen
      · exact .refl
    | closeFile file =>
      apply hquiet
      cases run
      exact .of_data rfl fun _ => rfl
    | switchFile file switches =>
      apply hquiet
      rcases requireHeld_bind_eq_ok.1 run with ⟨-, hrun⟩ | ⟨-, -, rfl⟩
      · cases hrun
        exact .of_update file.file fun _ _ => rfl
      · exact .refl
    | writeFile file offset bytes =>
      obtain ⟨calls, hcalls⟩ := h.logs_moves hmoves
      exact ⟨calls, hcalls, fun _ _ => .inl ⟨file, offset, bytes, rfl⟩⟩
    | onSpace id address op =>
      exfalso
      cases op with
      | remove =>
        obtain ⟨_, hl⟩ := houtside
        exact hl
      | pin | fault | duplicate => exact houtside.elim False.elim False.elim
      | touch => rcases houtside with hl | hl <;> cases hl
      | _ => exact houtside
    | createSpace => rcases houtside with hl | hl <;> cases hl
    | unlock => exact houtside.elim
    | switchDisk => cases houtside
  · have hend := h.preserves (P := fun n => Moves (op.Makes s) ⟨s, none⟩ n ∧
      ∃ calls, s.files.Logs calls n.machine.files ∧ ∀ call ∈ calls,
        ∃ m pl, Moves (op.Makes s) ⟨s, none⟩ m ∧ m.machine.Sends pl call) hmoves ?_
      ⟨.refl, [], .refl, fun call hmem => by cases hmem⟩
    · obtain ⟨-, calls, hlogs, hsends⟩ := hend
      exact ⟨calls, hlogs, fun call hmem => .inr (hsends call hmem)⟩
    · rintro l m n hl hm ⟨hpast, calls, hlogs, hsends⟩ hmove
      refine ⟨hpast.tail hmove hl, ?_⟩
      have hne : l ≠ .outside := by
        rintro rfl
        exact houtside hl
      rcases hm.logs_inside hmove hne with hnone | ⟨call, hcall, pl, hsent⟩
      · exact ⟨calls, hlogs.trans hnone, hsends⟩
      · refine ⟨_, hlogs.trans hcall, fun other hmem => ?_⟩
        rcases List.mem_append.1 hmem with hmem | hmem
        · rw [List.mem_singleton.1 hmem]
          exact ⟨m, pl, hpast, hsent⟩
        · exact hsends other hmem

end Machine

namespace Segment

variable {g : Segment} {key : Nat} {files : FileStore}

instance (g : Segment) (key : Nat) : Decidable (g.Whole key) := inferInstanceAs (Decidable (_ ∨ _))

/-- Filling a page of the segment works if the file has all of its bytes, and only then. -/
theorem Keeps.populate {t u : Transfer} {r : Except PagerError Unit} (hkeeps : g.Keeps t.files)
    (hk : t.page.kind = .unpopulated (g.unpopulated key))
    (hread : t.files.Readable g.file (g.slice key).offset (g.count key))
    (run : Transfer.populate t = .ok (r, u)) :
    g.Whole key ∧ r = .ok () ∨ ¬ g.Whole key ∧ r = .error (.store .shortRead) := by
  obtain ⟨data, hdata, hlength, -⟩ := hkeeps.data
  unfold Transfer.populate at run
  rw [Action.get_bind, hk] at run
  have hload : ∀ {q v}, Transfer.fill (g.unpopulated key).initializer (g.unpopulated key).slice t =
      .ok (q, v) → g.Whole key ∧ q = .ok () ∨ ¬ g.Whole key ∧ q = .error (.store .shortRead) := by
    intro q v hfill
    obtain ⟨w, hw, -⟩ := Transfer.fill_eq_ok.1 hfill
    obtain ⟨file, hfile, hq⟩ := Transfer.load_readable hread hw
    have hfound : file.data = data :=
      Option.some.inj ((FileStore.data?_of_file? hfile).symm.trans hdata)
    have hwhole := whole_iff (hfound ▸ hlength) key
    by_cases hw : g.Whole key
    · exact .inl ⟨hw, hq.trans (if_pos (hwhole.2 hw))⟩
    · exact .inr ⟨hw, hq.trans (if_neg fun hall => hw (hwhole.1 hall))⟩
  rcases Action.bind_eq_ok.1 run with ⟨_, v, hfill, run⟩ | ⟨e, hfill, rfl⟩
  · rcases hload hfill with ⟨hwhole, -⟩ | ⟨-, he⟩
    · cases run
      exact .inl ⟨hwhole, rfl⟩
    · cases he
  · rcases hload hfill with ⟨-, he⟩ | ⟨hshort, he⟩
    · cases he
    · cases he
      exact .inr ⟨hshort, rfl⟩

/-- The page is one of the segment's: it waits to be loaded, or it was, which takes a file that is
long enough. -/
def Belongs (g : Segment) (key : Nat) (p : Page) : Prop :=
  p.type = .anonymous ∧
    (p.kind = .unpopulated (g.unpopulated key) ∨ p.isInitialized = true ∧ g.Whole key)

/-- What a page shows as long as it does not matter what was stored to it. -/
theorem shows_iff {s : Machine} {pl : Place} : g.Shows True pl.key (s.flat pl) ↔
    ∃ p, Pager.pageAt s.spaces pl = some p ∧ g.Belongs pl.key p := by
  unfold Shows Belongs
  cases hp : Pager.pageAt s.spaces pl with
  | none => simp [flat_of_none hp]
  | some p =>
    rw [flat_of_page hp, cell]
    cases hk : p.kind with
    | unpopulated u =>
      have hinit := Page.isInitialized_of_waits hk
      have htype := Page.type_of_waits hk
      by_cases htarget : u.target = .anonymous
      · simp [hk, hinit, htype, htarget]
      · simp only [if_neg htarget]
        constructor
        · simp
        · rintro ⟨q, ⟨⟩, hanonymous, -⟩
          exact absurd (htype.symm.trans hanonymous) htarget
    | anonymous => simp [hk, Page.type, Page.isInitialized]
    | fileBacked => simp [hk, Page.type]

variable {m n : Moment} {l : Label} {pl : Place} {p q : Page}

/-- A page of the segment is one as long as it is there. -/
theorem Belongs.move (hbelongs : g.Belongs pl.key p) (h : Coherent m)
    (hkeeps : g.Keeps m.machine.files) (hmove : Move l m n)
    (hp : pageAt m.machine.spaces pl = some p) (hq : pageAt n.machine.spaces pl = some q) :
    g.Belongs pl.key q := by
  obtain ⟨htype, hcase⟩ := hbelongs
  have hages := h.ages hmove hp hq
  refine ⟨hages.type.trans htype, ?_⟩
  rcases hcase with hk | ⟨hinit, hwhole⟩
  · by_cases hfills : l = .populate pl ∨ l = .lose pl
    · obtain ⟨hq', bytes, hbytes⟩ := h.fills hmove hfills hp hq hk
      exact .inr ⟨hq', (hkeeps.fills hbytes).1⟩
    · exact .inl (Page.waits_of_resting (h.resting_kept hmove hfills hp hq) hk)
  · refine .inr ⟨?_, hwhole⟩
    cases hkind : q.kind with
    | unpopulated u =>
      rw [Page.isInitialized_of_waits (hages.waits u hkind)] at hinit
      cases hinit
    | anonymous | fileBacked => rw [Page.isInitialized, hkind]

section Steps

variable {s t u : Machine} {id heir : SpaceId} {op : Op} {ops : List Op} {r : Except Failure Value}

/-- A page of the segment is one all through an operation, unless it is taken away. -/
theorem Belongs.moves (hbelongs : g.Belongs pl.key p) (h : Coherent ⟨s, none⟩)
    (hkeeps : g.Keeps s.files) (hmoves : Moves (op.Makes s) ⟨s, none⟩ n)
    (hp : Pager.pageAt s.spaces pl = some p) :
    (∃ q, Pager.pageAt n.machine.spaces pl = some q ∧ g.Belongs pl.key q) ∨
      Pager.pageAt n.machine.spaces pl = none ∧
        ((∃ address, op = .onSpace pl.space address .remove ∧ pl = .of pl.space ⟨address⟩) ∨
          ∃ address, op = .onSpace pl.space address .teardown) := by
  have hend := h.lasts (R := fun m p => g.Keeps m.machine.files ∧ g.Belongs pl.key p) hmoves
    (apart_of_makes h hp) ?_ hp ⟨hkeeps, hbelongs⟩
  · rcases hend with ⟨q, hq, -, hend⟩ | ⟨hnone, o, q, ho, hq, ⟨-, htype, -⟩, hremoves⟩
    · exact .inl ⟨q, hq, hend⟩
    · refine .inr ⟨hnone, ?_⟩
      rcases removes_of_makes hremoves with hremoved | htorn | hmapped | hfresh
      · exact .inl hremoved
      · exact .inr htorn
      · cases (ho.typed pl q hq hmapped).symm.trans htype
      · obtain ⟨sp, hsp, -⟩ := exists_space_of_pageAt hp
        cases hsp.symm.trans (h.fresh pl.space (Nat.le_of_eq hfresh.symm))
  · rintro l m o p q - hm hmove hp hq ⟨hkept, hbelongs⟩
    refine ⟨?_, hbelongs.move hm hkept hmove hp hq⟩
    have hsingle : Moves (fun _ => True) m o := .single hmove trivial
    obtain ⟨calls, hcalls⟩ := hm.logs_moves hsingle
    exact hkept.logs hcalls

/-- Whatever is done, and whatever fails, the segment stays where it is not taken away. -/
theorem Stands.step (hstands : g.Stands True id s.flat) (h : Coherent ⟨s, none⟩)
    (hkeeps : g.Keeps s.files) (run : step op s = .ok (r, t)) (hstays : ¬ g.Removes id op r) :
    g.Stands True id t.flat := by
  intro pl hpl
  obtain ⟨p, hp, hbelongs⟩ := shows_iff.1 (hstands pl hpl)
  have hid := hpl.1
  rcases hbelongs.moves h hkeeps (step_moves h run) hp with hstill | ⟨hnone, hremoved⟩
  · exact shows_iff.2 hstill
  · cases r with
    | error e =>
      have hflat : t.flat = s.flat := by
        rcases hremoved with ⟨address, rfl, -⟩ | ⟨address, rfl⟩
        · exact flat_of_refused h (.inl rfl) run
        · exact flat_of_refused h (.inr rfl) run
      rw [hflat]
      exact hstands pl hpl
    | ok value =>
      refine absurd ?_ hstays
      rcases hremoved with ⟨address, rfl, hplace⟩ | ⟨address, rfl⟩
      · rw [Place.of_eq_containing] at hplace
        rw [Removes, ← hplace]
        exact hpl
      · exact hid

/-- A copy of the space has the segment too, whatever it held. -/
theorem Stands.inherited {address : Nat} {refuses : Option PagerError} {child : SpaceId}
    (hstands : g.Stands True id s.flat) (h : Coherent ⟨s, none⟩)
    (run : Machine.step (.onSpace id address (.duplicate refuses)) s =
      .ok (.ok (.space child), t)) : g.Stands True child t.flat := by
  obtain ⟨q, hq, hr⟩ := liftPager_eq_ok.1 (of_idle run)
  obtain ⟨_, -, ⟨rfl, -, hflat⟩ | ⟨⟨e, rfl⟩, -⟩⟩ := duplicate_moves h hq
  · cases hr
    exact Stands.copied (m := s.ideal) (n := t.ideal) hstands hflat
  · cases hr

/-- However the segment is passed on, and whatever is stored to it, its pages are memory that waits
to be loaded or was. -/
theorem Passes.stays (hpasses : g.Passes True id s ops heir u) (h : Coherent ⟨s, none⟩)
    (hkeeps : g.Keeps s.files) (hstands : g.Stands True id s.flat) :
    Coherent ⟨u, none⟩ ∧ g.Keeps u.files ∧ g.Stands True heir u.flat := by
  induction hpasses with
  | here => exact ⟨h, hkeeps, hstands⟩
  | on hfirst hhands _ ih =>
    have hmoves := step_moves h hfirst
    obtain ⟨calls, hcalls⟩ := h.logs_moves hmoves
    refine ih (h.moves hmoves) (hkeeps.logs hcalls) ?_
    cases hhands with
    | stays hstays => exact hstands.step h hkeeps hfirst hstays
    | copied => exact hstands.inherited h hfirst

/-- No file is asked to take what was stored to a page of the segment. -/
theorem Stands.unsent {call : WriteCall} (hstands : g.Stands True id s.flat)
    (h : Coherent ⟨s, none⟩) (hkeeps : g.Keeps s.files)
    (hmoves : Moves (op.Makes s) ⟨s, none⟩ n) (hsends : n.machine.Sends pl call) :
    ¬ g.Covers id pl := by
  intro hpl
  obtain ⟨p, hp, hbelongs⟩ := shows_iff.1 (hstands pl hpl)
  obtain ⟨file, bytes, ⟨o, f, e, ho, hk, -⟩, -⟩ := hsends
  rcases hbelongs.moves h hkeeps hmoves hp with ⟨q, hq, htype, -⟩ | ⟨hnone, -⟩
  · cases hq.symm.trans ho
    rw [Page.type, hk] at htype
    cases htype
  · cases hnone.symm.trans ho

end Steps

/-- The segment was loaded into a space by a single request. -/
structure Loads (g : Segment) (id : SpaceId) (s t : Machine) : Prop where
  request : ∃ writable, Machine.step (.onSpace id g.start
    (.registerSegment g.file g.offset g.readBytes g.zeroBytes writable)) s = .ok (.ok .unit, t)
  data : s.files.data? g.file.file = some g.data
  past : s.files.calls = g.past

/-- A segment that was just loaded waits, page by page. -/
theorem Loads.stands {stored : Prop} {id : SpaceId} {s t : Machine} (hloads : g.Loads id s t) :
    g.Stands stored id t.flat ∧ g.Keeps t.files ∧ g.start % pageSize = 0 := by
  obtain ⟨⟨writable, run⟩, hdata, hpast⟩ := hloads
  rcases held_cases (of_idle run) with ⟨q, hq, hr⟩ | ⟨hr, -⟩
  · rcases registerSegment_cases hq with ⟨rfl, haligned, htotal, pages, hpages, hadds⟩ | ⟨e, rfl, -⟩
    · obtain ⟨hvacant, hmemory⟩ := hadds.gains_segment haligned htotal hpages
      refine ⟨fun pl hpl => ?_, ?_, ?_⟩
      · have hcell : Flat.segment id g.start g.file g.offset g.readBytes
            (g.readBytes + g.zeroBytes) pl = some (.waiting (g.unpopulated pl.key)) := by
          unfold Flat.segment
          exact if_pos hpl
        have hnone : s.flat pl = none := by
          rcases hvacant pl with hnone | hnone
          · exact hnone
          · cases hnone.symm.trans hcell
        refine .inl ((congrFun hmemory pl).trans ?_)
        show (s.flat pl).or _ = _
        rw [hnone, Option.none_or]
        exact hcell
      · rw [hadds.files]
        exact ⟨⟨g.data, hdata, rfl, fun _ => rfl⟩, [], hpast⟩
      · simpa [Address.isPageAligned, Address.pageOffset] using haligned
    · cases hr
  · cases hr

/-- A byte of what a page is loaded with. -/
theorem getElem?_image {j : Nat} (hwhole : g.Whole key) (hj : j < pageSize) :
    (g.image key)[j]? = if key - g.start + j < g.readBytes
      then g.data[g.offset + (key - g.start + j)]? else some 0 := by
  have hlength : (g.part key).length = g.count key := (whole_iff rfl key).2 hwhole
  have hcount : j < g.count key ↔ key - g.start + j < g.readBytes := by
    unfold count
    omega
  unfold image
  by_cases hin : j < g.count key
  · rw [if_pos (hcount.1 hin), List.getElem?_append_left (hlength ▸ hin), part, Bytes.slice,
      List.getElem?_take, if_pos hin, List.getElem?_drop, Nat.add_assoc]
  · rw [if_neg fun h => hin (hcount.2 h), List.getElem?_append_right (by omega), hlength,
      Bytes.zeros, List.getElem?_replicate, if_pos (by omega)]

/-- What is read from the whole segment. -/
theorem Stands.yields {id : SpaceId} {memory : Flat} {bytes : Bytes}
    (hstands : g.Stands False id memory) (hstart : g.start % pageSize = 0)
    (hfull : g.offset + g.readBytes ≤ g.data.length) (hlength : bytes.length = g.total)
    (hyields : ∀ i byte, bytes[i]? = some byte → memory.Yields id (g.start + i) byte) :
    bytes = g.data.slice g.offset g.readBytes ++ .zeros g.zeroBytes := by
  have hslice := Bytes.length_slice_of_le hfull
  refine List.ext_getElem? fun i => ?_
  by_cases hi : i < g.total
  · obtain ⟨byte, hbyte⟩ : ∃ byte, bytes[i]? = some byte :=
      ⟨_, List.getElem?_eq_getElem (hlength ▸ hi)⟩
    -- the page that holds the byte, and where on it the byte lies
    have hkey : g.start ≤ (g.start + i) / pageSize * pageSize ∧
        (g.start + i) / pageSize * pageSize - g.start + (g.start + i) % pageSize = i := by
      unfold pageSize at *
      omega
    have hcovers : g.Covers id (.containing id (g.start + i)) := by
      refine ⟨rfl, hkey.1, ?_, Nat.mul_mod_left ..⟩
      show (g.start + i) / pageSize * pageSize < g.start + g.total
      omega
    have hread := hyields i byte hbyte
    unfold Flat.Yields at hread
    rcases hstands _ hcovers with hwaits | ⟨hwhole, held, hholds, hheld⟩
    · rw [hwaits] at hread
      exact hread.elim
    · rw [hholds] at hread
      have himage := getElem?_image hwhole (Nat.mod_lt (g.start + i) pageSize_pos)
      have hbyte' : held[(g.start + i) % pageSize]? = some byte := hread
      have hplace : (Place.containing id (g.start + i)).key =
          (g.start + i) / pageSize * pageSize := rfl
      rw [← hheld.resolve_left not_false, hbyte', hplace, hkey.2] at himage
      rw [hbyte, himage]
      by_cases hin : i < g.readBytes
      · rw [if_pos hin, List.getElem?_append_left (by omega), Bytes.slice, List.getElem?_take,
          if_pos hin, List.getElem?_drop]
      · rw [if_neg hin, List.getElem?_append_right (by omega), hslice, Bytes.zeros,
          List.getElem?_replicate, if_pos]
        unfold total at hi
        omega
  · rw [List.getElem?_eq_none (by omega), List.getElem?_eq_none]
    rw [List.length_append, hslice, Bytes.length_zeros]
    exact Nat.not_lt.1 hi

/-- Whoever reads the whole segment, while nobody writes to the file, gets what the file holds with
zeros behind it. -/
def ReadsBack (g : Segment) (id : SpaceId) (s : Machine) : Prop :=
  ∀ bytes t, Machine.step (.onSpace id g.start (.copyFrom g.total)) s =
      .ok (.ok (.bytes bytes), t) →
    g.Unwritten t.files → bytes = g.data.slice g.offset g.readBytes ++ .zeros g.zeroBytes

/-- Whatever is done next, files are asked to take only what callers write to them and what was
stored to pages of files, and none of these is a page of the segment. -/
def SendsNothing (g : Segment) (id : SpaceId) (s : Machine) : Prop :=
  ∀ op r t, Machine.step op s = .ok (r, t) →
    (∃ calls, s.files.Logs calls t.files ∧ ∀ call ∈ calls,
      (∃ file offset bytes, op = .writeFile file offset bytes) ∨
        ∃ m pl, Moves (op.Makes s) ⟨s, none⟩ m ∧ m.machine.Sends pl call) ∧
    ∀ m pl call, Moves (op.Makes s) ⟨s, none⟩ m → m.machine.Sends pl call → ¬ g.Covers id pl

/-- Once a claim has got a frame, and if the file can be read, a page that the file is too short
for fails for that and goes on waiting, and any other page that waits is loaded. -/
def LoadsByPage (g : Segment) (id : SpaceId) (s : Machine) : Prop :=
  ∀ a key f w, g.Covers id ⟨id, key⟩ → Place.of id a = ⟨id, key⟩ →
    obtainFrame s = .ok (.ok f, w) → w.files.Readable g.file (g.slice key).offset (g.count key) →
    (¬ g.Whole key → ∃ v, claim id a s = .ok (.error (.store .shortRead), v) ∧
      v.Waits ⟨id, key⟩ (g.unpopulated key)) ∧
    (g.Whole key → s.Waits ⟨id, key⟩ (g.unpopulated key) → (∀ e, ¬ s.Refuses id e) →
      ∃ v, claim id a s = .ok (.ok f, v) ∧
        (g.Unwritten w.files → v.flat ⟨id, key⟩ = some (.holding (g.image key))))

/-- The space that was given the segment keeps it, unless something is taken away or stored. -/
theorem Passes.of_run {stored : Prop} {s u : Machine} {id : SpaceId} {ops : List Op}
    {results : List (Except Failure Value)} (hrun : Machine.run ops s = .ok (results, u))
    (hops : ∀ op ∈ ops, ∀ v r, ¬ g.Removes id op r ∧ ¬ g.Changes v id op) :
    g.Passes stored id s ops id u := by
  induction ops generalizing s results with
  | nil =>
    cases hrun
    exact .here
  | cons op rest ih =>
    obtain ⟨r, t, _, hstep, hrest, -⟩ := run_cons_eq_ok.1 hrun
    obtain ⟨hstays, hspared⟩ := hops op (List.mem_cons_self ..) s r
    exact .on hstep (.stays hstays (.inr hspared))
      (ih hrest fun other hother => hops other (List.mem_cons_of_mem _ hother))

theorem Passes.trans {stored : Prop} {s t u : Machine} {id next heir : SpaceId}
    {ops more : List Op} (h : g.Passes stored id s ops next t)
    (h' : g.Passes stored next t more heir u) : g.Passes stored id s (ops ++ more) heir u := by
  induction h with
  | here => exact h'
  | on hfirst hhands _ ih => exact .on hfirst hhands (ih h')

theorem Passes.readsBack {s u : Machine} {id heir : SpaceId} {ops : List Op}
    (hpasses : g.Passes False id s ops heir u) (h : Coherent ⟨s, none⟩) (hw : s.Willing)
    (hops : ∀ op ∈ ops, op.Obliging) (hkeeps : g.Keeps s.files)
    (hstands : g.Stands False id s.flat) (hstart : g.start % pageSize = 0)
    (hfull : g.offset + g.readBytes ≤ g.data.length) : g.ReadsBack heir u := by
  intro bytes v run hafter
  obtain ⟨results, hrun⟩ := hpasses.run
  have hu := h.moves (run_moves h hrun)
  obtain ⟨calls, hcalls⟩ := hu.logs_moves (step_moves hu run)
  obtain ⟨hend, hkept, hwilling⟩ :=
    hpasses.stands h hw hops hkeeps (hafter.before hcalls) hstands
  have hread := hend.of_step hu hwilling hkept hafter run not_false (.inr not_false)
  obtain ⟨-, hlength, hyields⟩ := step_performs hu hwilling run
  exact hread.yields hstart hfull hlength hyields

theorem Stands.loadsByPage {s : Machine} {id : SpaceId} (hstands : g.Stands True id s.flat)
    (h : Coherent ⟨s, none⟩) (hkeeps : g.Keeps s.files) : g.LoadsByPage id s := by
  intro a key f w hpl hplace hsearch hread
  obtain ⟨calls, hcalls⟩ := h.logs_moves (obtainFrame_moves h hsearch)
  have hkept := hkeeps.logs hcalls
  have hcount : (g.unpopulated key).slice.readBytes ≤ pageSize := Nat.min_le_right ..
  rw [← hplace]
  constructor
  · intro hshort
    obtain ⟨p, hp, -, hk | ⟨-, hall⟩⟩ := shows_iff.1 (hstands _ hpl)
    · have hwaits : s.Waits (.of id a) (g.unpopulated key) := ⟨p, hplace ▸ hp, hk,
        h.absent_of_waits hp (Page.isInitialized_of_waits hk), Page.slot_of_waits hk⟩
      obtain ⟨q, v, p, bytes, r, t, hrun, hk, hfill, hends⟩ :=
        claim_waiting h hwaits hcount rfl hsearch
      rcases hkept.populate hk hread hfill with ⟨hall, -⟩ | ⟨-, rfl⟩
      · exact absurd hall hshort
      · rcases hends with ⟨e, he, rfl, hend⟩ | ⟨hr, -⟩
        · cases he
          exact ⟨v, hrun, hend⟩
        · cases hr
    · exact absurd hall hshort
  · intro hall hwaits hanswers
    obtain ⟨q, v, p, bytes, r, t, hrun, hk, hfill, hends⟩ :=
      claim_waiting h hwaits hcount rfl hsearch
    rcases hkept.populate hk hread hfill with ⟨-, rfl⟩ | ⟨hshort, -⟩
    · rcases hends with ⟨e, hr, -⟩ | ⟨-, ⟨e, hrefuses, -⟩ | ⟨rfl, filled, hfills, hflat⟩⟩
      · cases hr
      · exact absurd hrefuses (hanswers e)
      · refine ⟨v, hrun, fun hunwritten => ?_⟩
        rw [hflat, (hkept.fills hfills).2 hunwritten]
    · exact absurd hall hshort

end Segment

namespace Machine

variable {s t : Machine} {g : Segment} {id : SpaceId}

/-- A segment that was loaded reads as the bytes of its file with zeros behind them, in whatever
order its pages are claimed, moved out and back, and passed on to copies of its space, as long as no
directory refuses entries. No file is ever asked to take what is stored to it. Where the file ends
too early, the pages that miss bytes fail when they are claimed, and the others are loaded. -/
theorem Reachable.segment_faithful (hs : Reachable s) (hloads : g.Loads id s t) :
    (∀ {ops : List Op} {heir : SpaceId} {u : Machine}, g.Passes False id t ops heir u →
      s.Willing → (∀ op ∈ ops, op.Obliging) → g.offset + g.readBytes ≤ g.data.length →
        g.ReadsBack heir u) ∧
    ∀ {ops : List Op} {heir : SpaceId} {u : Machine}, g.Passes True id t ops heir u →
      g.SendsNothing heir u ∧ g.LoadsByPage heir u := by
  have h := hs.coherent
  obtain ⟨writable, hload⟩ := hloads.request
  have ht := h.moves (step_moves h hload)
  refine ⟨fun hpasses hw hops hfull => ?_, fun {_ _ u} hpasses => ?_⟩
  · have hwilling : t.Willing := by
      refine step_willing h hw ?_ hload
      trivial
    obtain ⟨hstands, hkeeps, hstart⟩ := hloads.stands
    exact hpasses.readsBack ht hwilling hops hkeeps hstands hstart hfull
  · obtain ⟨hmade, hkeeps, -⟩ := hloads.stands
    obtain ⟨hu, hkept, hstands⟩ := hpasses.stays ht hkeeps hmade
    refine ⟨fun op r v run => ⟨step_sends hu run, fun m pl call hmoves hsends => ?_⟩,
      hstands.loadsByPage hu hkept⟩
    exact hstands.unsent hu hkept hmoves hsends

/-- Two pages with three bytes of a file. -/
def brief : Segment where
  start := 0x10000
  file := FileStore.firstHandle 0
  offset := 0
  readBytes := 3
  zeroBytes := 8189
  data := [5, 6, 7]
  past := []

/-- The same pages with five bytes, of which the file has only three. -/
def truncated : Segment := { brief with readBytes := 5, zeroBytes := 8187 }

/-- The parent loads its first page. -/
def spreading : List Op := [.onSpace 1 0x10000 .claim]

/-- The parent stores to its own page, which moves out the child's. -/
def diverging : List Op := [.onSpace 1 0x10000 (.copyTo [9])]

theorem segment_faithful_of_inheriting : ∃ s t u v bytes ops x y z, Reachable s ∧
    brief.Loads 1 s t ∧ brief.Passes False 1 t ops 2 u ∧
    step (.onSpace 2 0x10000 (.copyFrom 8192)) u = .ok (.ok (.bytes bytes), v) ∧
    bytes = [5, 6, 7] ++ Bytes.zeros 8189 ∧ brief.SendsNothing 2 u ∧
    truncated.Loads 1 s x ∧ obtainFrame x = .ok (.ok 0, y) ∧
    claim 1 ⟨0x10000⟩ x = .ok (.error (.store .shortRead), z) ∧
    z.Waits ⟨1, 0x10000⟩ (truncated.unpopulated 0x10000) ∧ truncated.Whole 0x11000 := by
  have hend : (boot 1 64 [[5, 6, 7]] >>= fun start => run [.createSpace] start >>= fun ready =>
      step (.onSpace 1 0x10000 (.registerSegment brief.file 0 3 8189 true)) ready.2 >>=
      fun loaded => run spreading loaded.2 >>= fun spread =>
      step (.onSpace 1 0 (.duplicate none)) spread.2 >>= fun copied =>
      run diverging copied.2 >>= fun last =>
      step (.onSpace 2 0x10000 (.copyFrom 8192)) last.2 >>= fun read =>
      step (.onSpace 1 0x10000 (.registerSegment brief.file 0 5 8187 true)) ready.2 >>= fun short =>
      obtainFrame short.2 >>= fun found =>
        .ok (isDone loaded.1 && isDone short.1 && found.1 = .ok 0 && ready.2.files.calls.isEmpty &&
            read.2.files.calls.isEmpty && (found.2.files.file? brief.file).any fun file =>
              !file.failReads 0 && (file.maxRead 0).isNone, spaceMade copied.1,
          [ready.2.files.data? 0, (bytesRead [read.1] 0).map (List.take 3)])) =
      .ok (true, some 2, [some [5, 6, 7], some [5, 6, 7]]) := by decide +kernel
  obtain ⟨start, hboot, hend⟩ := except_bind_eq_ok.1 hend
  obtain ⟨⟨earlier, s⟩, hready, hend⟩ := except_bind_eq_ok.1 hend
  obtain ⟨⟨r, t⟩, hload, hend⟩ := except_bind_eq_ok.1 hend
  obtain ⟨⟨spread, w⟩, hspread, hend⟩ := except_bind_eq_ok.1 hend
  obtain ⟨⟨child, o⟩, hcopy, hend⟩ := except_bind_eq_ok.1 hend
  obtain ⟨⟨results, u⟩, hrun, hend⟩ := except_bind_eq_ok.1 hend
  obtain ⟨⟨q, v⟩, hread, hend⟩ := except_bind_eq_ok.1 hend
  obtain ⟨⟨r', x⟩, hload', hend⟩ := except_bind_eq_ok.1 hend
  obtain ⟨⟨found, y⟩, hsearch, hend⟩ := except_bind_eq_ok.1 hend
  simp only [Except.ok.injEq, Prod.mk.injEq, Bool.and_eq_true, List.isEmpty_iff,
    decide_eq_true_eq, List.cons.injEq, and_true] at hend
  obtain ⟨⟨⟨⟨⟨⟨hdone, hdone'⟩, hfound⟩, hpast⟩, hcalls⟩, hswitches⟩, hmade, hfile, hbytes⟩ := hend
  cases isDone_iff.1 hdone
  cases isDone_iff.1 hdone'
  cases spaceMade_eq_some.1 hmade
  subst hfound
  obtain ⟨bytes, hbytes, -⟩ := Option.map_eq_some_iff.1 hbytes
  cases Option.some.inj (of_bytesRead hbytes)
  have hs : Reachable s := ⟨1, 64, [[5, 6, 7]], _, start, earlier, hboot, hready⟩
  have hw : s.Willing :=
    run_willing (boot_coherent hboot) (boot_willing hboot) (by simp [Op.Obliging]) hready
  have hloads : brief.Loads 1 s t := ⟨⟨true, hload⟩, hfile, hpast⟩
  have hloads' : truncated.Loads 1 s x := ⟨⟨true, hload'⟩, hfile, hpast⟩
  have hpasses : ∀ stored, brief.Passes stored 1 t
      (spreading ++ .onSpace 1 0 (.duplicate none) :: diverging) 2 u := by
    intro stored
    refine .trans (.of_run hspread ?_) (.on hcopy .copied (.of_run hrun ?_))
    · simp [spreading, Segment.Removes, Segment.Changes]
    · simp [diverging, Segment.Removes, Segment.Changes, Segment.Covers, Place.containing]
  obtain ⟨hreads, hlater⟩ := hs.segment_faithful hloads
  have hops : ∀ op ∈ spreading ++ .onSpace 1 0 (.duplicate none) :: diverging, op.Obliging := by
    simp [spreading, diverging, Op.Obliging]
  have hunwritten : brief.Unwritten v.files := by
    intro calls hmade call hmem
    obtain ⟨rfl, -⟩ := List.append_eq_nil_iff.1 (hmade.symm.trans hcalls)
    cases hmem
  have hsame := hreads (hpasses False) hw hops (by decide) bytes v hread hunwritten
  obtain ⟨-, hpages⟩ := (hs.segment_faithful hloads').2 .here
  have hwhole : ¬ truncated.Whole 0x10000 := by decide
  have hreadable : y.files.Readable truncated.file (truncated.slice 0x10000).offset
      (truncated.count 0x10000) := by
    obtain ⟨file, hfile, hswitches⟩ := (Option.any_eq_true _ _).1 hswitches
    simp only [Bool.and_eq_true, Bool.not_eq_true', Option.isNone_iff_eq_none] at hswitches
    refine ⟨file, hfile, hswitches.1, fun most hlimit => ?_⟩
    cases hswitches.2.symm.trans hlimit
  obtain ⟨z, hclaim, hwaits⟩ := (hpages ⟨0x10000⟩ 0x10000 0 y ⟨rfl, by decide⟩ rfl hsearch
    hreadable).1 hwhole
  exact ⟨s, t, u, v, bytes, _, x, y, z, hs, hloads, hpasses False, hread, hsame,
    (hlater (hpasses True)).1, hloads', hsearch, hclaim, hwaits, by decide⟩

/-- The space's directory refuses the first page once it is filled. -/
def declining : List Op := [.onSpace 1 0x10000 (.refuseEntries (some .outOfMemory)),
  .onSpace 1 0x10000 .claim, .onSpace 1 0x10000 (.refuseEntries none)]

/-- A page that was filled when the directory refused it counts as loaded, but what it was filled
with is lost, and the segment reads as zeros. -/
theorem not_readsBack_of_declining : ∃ s t u, Reachable s ∧ brief.Loads 1 s t ∧
    brief.Passes False 1 t declining 1 u ∧ brief.offset + brief.readBytes ≤ brief.data.length ∧
    ¬ brief.ReadsBack 1 u := by
  have hend : (boot 1 64 [[5, 6, 7]] >>= fun start => run [.createSpace] start >>= fun ready =>
      step (.onSpace 1 0x10000 (.registerSegment brief.file 0 3 8189 true)) ready.2 >>=
      fun loaded => run declining loaded.2 >>= fun last =>
      step (.onSpace 1 0x10000 (.copyFrom 8192)) last.2 >>= fun read =>
        .ok (isDone loaded.1 && ready.2.files.calls.isEmpty && read.2.files.calls.isEmpty,
          [ready.2.files.data? 0, (bytesRead [read.1] 0).map (List.take 3)])) =
      .ok (true, [some [5, 6, 7], some [0, 0, 0]]) := by decide +kernel
  obtain ⟨start, hboot, hend⟩ := except_bind_eq_ok.1 hend
  obtain ⟨⟨earlier, s⟩, hready, hend⟩ := except_bind_eq_ok.1 hend
  obtain ⟨⟨r, t⟩, hload, hend⟩ := except_bind_eq_ok.1 hend
  obtain ⟨⟨results, u⟩, hrun, hend⟩ := except_bind_eq_ok.1 hend
  obtain ⟨⟨q, v⟩, hread, hend⟩ := except_bind_eq_ok.1 hend
  simp only [Except.ok.injEq, Prod.mk.injEq, Bool.and_eq_true, List.isEmpty_iff,
    List.cons.injEq, and_true] at hend
  obtain ⟨⟨⟨hdone, hpast⟩, hcalls⟩, hfile, hbytes⟩ := hend
  cases isDone_iff.1 hdone
  obtain ⟨bytes, hbytes, hzeros⟩ := Option.map_eq_some_iff.1 hbytes
  cases Option.some.inj (of_bytesRead hbytes)
  refine ⟨s, t, u, ⟨1, 64, [[5, 6, 7]], _, start, earlier, hboot, hready⟩,
    ⟨⟨true, hload⟩, hfile, hpast⟩, .of_run hrun ?_, by decide, fun hreads => ?_⟩
  · simp [declining, Segment.Removes, Segment.Changes]
  · have hsame := hreads bytes v hread fun calls hmade call hmem => by
      obtain ⟨rfl, -⟩ := List.append_eq_nil_iff.1 (hmade.symm.trans hcalls)
      cases hmem
    rw [hsame] at hzeros
    exact absurd hzeros (by decide)

end Machine
end Pager
