import Pager.Proofs.Dismantling
import Pager.Proofs.Fidelity
import Pager.Proofs.Reloading

/-!
Eviction as a process sees it. Whatever is asked of the machine, a page of a file shows what it
would show if it had never left its frame, but for bytes behind its part of the file, which a
reload makes zero. This needs that nobody else changes the part, and that the page does not hold
what only an initializer put there: such a page is moved out without a trace.
-/
namespace Pager

open Machine

/-- The operation stores to the page at `pl`, or marks it as stored to. -/
def Op.Stores (s : Machine) (pl : Place) : Op → Prop
  | .onSpace id address (.copyTo bytes) =>
    ∃ i < Op.storedCount s (.onSpace id address (.copyTo bytes)), pl = .containing id (address + i)
  | .onSpace id address (.touch true) => pl = .of id ⟨address⟩ ∧
    ∃ sp, s.spaces.get? id = some sp ∧
      sp.directory.isPresent (Address.pageBase ⟨address⟩) = true
  | _ => False

namespace Machine

/-- Somebody else than the page at `pl` works on its part of the file: it is written to from
outside and changes, or a page is stored to that stands for some of the same bytes. -/
def Meddles (s : Machine) (pl : Place) (file : FileBacking) (op : Op) (t : Machine) : Prop :=
  (∃ handle offset bytes, op = .writeFile handle offset bytes ∧
    ∃ i < file.readBytes, file.byte? t.files i ≠ file.byte? s.files i) ∨
  ∃ other, op.Stores s other ∧ s.Shares pl file other

end Machine

/-- What the page at `pl` would show after an operation if it stayed in its frame. -/
def Place.after (pl : Place) (s : Machine) (op : Op) (c : Nat → UInt8) : Nat → UInt8 :=
  match op with
  | .onSpace id address (.copyTo bytes) =>
    fun i => pl.receives id address (bytes.take (op.storedCount s)) i (c i)
  | _ => c

/-- What the page at `pl` would show after some operations if it stayed in its frame. -/
def Place.afterAll (pl : Place) : List Op → Machine → (Nat → UInt8) → Nat → UInt8
  | [], _, c => c
  | op :: rest, s, c =>
    match step op s with
    | .ok (_, t) => pl.afterAll rest t (pl.after s op c)
    | .error _ => c

namespace Machine

variable {s t : Machine} {pl : Place} {file : FileBacking} {c : Nat → UInt8} {op : Op}

theorem Steady.of_files {files : FileStore} (hsteady : s.Steady pl file c)
    (hsame : ∀ i < file.readBytes, file.byte? files i = file.byte? s.files i) :
    Steady { s with files } pl file c where
  retains := {
    registered := hsteady.retains.registered
    resident := hsteady.retains.resident
    saved := fun hclean i _ hi hbyte => hsteady.retains.saved hclean hi (hsame i hi ▸ hbyte) }
  sole := hsteady.sole

theorem Steady.of_logs {files : FileStore} (hsteady : s.Steady pl file c)
    (hlogs : s.files.Logs [] files) : Steady { s with files } pl file c := by
  refine hsteady.of_files fun i _ => ?_
  rw [FileBacking.byte?, FileBacking.byte?, hlogs.data]
  cases s.files.data? file.file.file <;> rfl

/-- Pages that are taken away elsewhere write to other parts of the file. -/
theorem Retains.replayed (hretains : s.Retains pl file c) (hsole : s.Sole pl file)
    {calls : List WriteCall} (hsends : ∀ call ∈ calls, ∃ other, s.Sends other call) {data : Bytes}
    {i : Nat} {byte : UInt8} (hi : i < file.readBytes)
    (hbyte : (FileStore.replay calls file.file.file data)[file.offset + i]? = some byte) :
    data[file.offset + i]? = some byte ∨ byte = c i := by
  induction calls generalizing byte with
  | nil => exact .inl hbyte
  | cons call rest ih =>
    obtain ⟨other, hsent⟩ := hsends call (List.mem_cons_self ..)
    rcases Retains.sent (m := ⟨s, none⟩) hretains hsole hsent hi hbyte with hrest | hc
    · exact ih (fun call hmem => hsends call (List.mem_cons_of_mem _ hmem)) hrest
    · exact .inr hc

theorem Steady.sheds {gone : Place → Prop} {calls : List WriteCall}
    (hsteady : s.Steady pl file c) (ht : Coherent ⟨t, none⟩)
    (hsheds : s.Sheds gone t) (hstays : (Pager.pageAt t.spaces pl).isSome = true)
    (hlogs : s.files.Logs calls t.files) (hsends : ∀ call ∈ calls, ∃ other, s.Sends other call) :
    t.Steady pl file c := by
  obtain ⟨p, hp⟩ := Option.isSome_iff_exists.1 hstays
  obtain ⟨hold, hspared⟩ := (hsheds.page pl p).1 hp
  refine ⟨⟨?_, ?_, ?_⟩, ?_⟩
  · obtain ⟨p', hp', hfills⟩ := hsteady.retains.registered
    cases hold.symm.trans hp'
    exact ⟨p, hp, hfills⟩
  · intro q f i byte hq hf hbyte
    obtain ⟨fr, -, hfr, -⟩ := ht.linked.page_frame hq hf
    rw [hsheds.frameBytes hfr] at hbyte
    exact hsteady.retains.resident ((hsheds.page pl q).1 hq).1 hf hbyte
  · intro hclean i byte hi hbyte
    rw [hsheds.dirty_iff hspared] at hclean
    obtain ⟨after, hafter, hbyte⟩ := Option.bind_eq_some_iff.1 hbyte
    rw [hlogs.data] at hafter
    obtain ⟨data, hdata, rfl⟩ := Option.map_eq_some_iff.1 hafter
    rcases hsteady.retains.replayed hsteady.sole hsends hi hbyte with hsame | hc
    · exact hsteady.retains.saved hclean hi
        (by rw [FileBacking.byte?, hdata, Option.bind_some, hsame])
    · exact hc
  · intro other g bytes hsoiled
    exact hsteady.sole other g bytes (hsheds.soiled ht hsoiled)

variable {id : SpaceId} {a : VirtualAddress}

/-- An operation on a space that stores nothing keeps what a page shows, as long as the page is
not taken away. -/
theorem Steady.of_perform {op : SpaceOp} (hsteady : s.Steady pl file c)
    (hfits : file.readBytes ≤ pageSize) (hs : Reachable s) (hstore : ∀ bytes, op ≠ .copyTo bytes)
    {r : Except Failure Value} (run : perform id a op s = .ok (r, t))
    (hstays : (Pager.pageAt t.spaces pl).isSome = true)
    (hspared : ¬ s.Meddles pl file (.onSpace id a.value op) t) : t.Steady pl file c := by
  have h := hs.coherent
  obtain ⟨p, hp, -⟩ := hsteady.retains.registered
  have hquiet : ∀ {kinds : Label → Prop}, Moves kinds ⟨s, none⟩ ⟨t, none⟩ →
      (∀ l, kinds l → l.Spares pl) → (∀ other, ¬ kinds (.soil other)) → t.Steady pl file c :=
    fun hmoves hl hsoil => Steady.moves (m := ⟨s, none⟩) (n := ⟨t, none⟩) hsteady hfits h hmoves hl
      fun other hkind => absurd hkind (hsoil other)
  have hclears : ∀ {id : SpaceId} {l : Label}, pl.space ≠ id → l.Clears id → l.Spares pl := by
    intro id l hne hl
    cases l with
    | unseat other | remove other =>
      rintro rfl
      exact hne hl
    | _ => first | exact True.intro | exact hl.elim
  cases op with
  | teardown =>
    obtain ⟨q, hq, -⟩ := liftPager_eq_ok.1 run
    obtain ⟨-, hmoves, hspaces⟩ := teardown_moves h hq
    refine hquiet hmoves (fun l => hclears ?_) fun _ hl => hl
    intro hspace
    rw [Pager.pageAt, hspaces, Table.get?_erase, if_pos hspace] at hstays
    cases hstays
  | munmap =>
    obtain ⟨q, hq, -⟩ := liftPager_eq_ok.1 run
    obtain ⟨hmoves, sp, hsp, ⟨-, -, rfl⟩ | ⟨record, -, -, -, hrecord, -⟩⟩ := munmap_moves h hq
    · exact hsteady
    · obtain ⟨calls, hdismantles, -⟩ :=
        munmap_dismantles h hsp hs.numbered hs.mapsFit.2 hs.sourced hrecord hq
      obtain ⟨places, -, -, hsends⟩ := hdismantles.sends
      refine hsteady.sheds (h.moves hmoves) hdismantles.sheds hstays hdismantles.logs ?_
      intro call hmem
      obtain ⟨n, hn, rfl⟩ := List.getElem_of_mem (List.mem_reverse.1 hmem)
      obtain ⟨hlength, hsent⟩ := List.forall₂_iff_get.1 hsends
      exact ⟨_, hsent n (hlength ▸ hn) hn⟩
  | remove =>
    obtain ⟨q, hq, -⟩ := liftPager_eq_ok.1 run
    obtain ⟨sp, hsp, ⟨-, -, rfl⟩ | ⟨_, _, -, -, hmoves, -, hspaces⟩⟩ := remove_moves h hq
    · exact hsteady
    · refine hquiet hmoves (fun l hl => ?_) fun _ hl => hl
      have hne : Place.of id a ≠ pl := by
        rintro rfl
        have hnone : Pager.pageAt t.spaces (.of id a) = none := by
          rw [hspaces]
          refine (congrFun (Coherent.pageAt_erase hsp ?_) _).trans (Function.update_self ..)
          rfl
        rw [hnone] at hstays
        cases hstays
      cases l with
      | unseat | remove =>
        obtain ⟨rfl, -⟩ := hl
        exact hne
      | _ => first | exact True.intro | exact hl.elim
  | copyFrom length =>
    obtain ⟨q, hq, -⟩ := liftPager_eq_ok.1 run
    exact hsteady.claimed hfits h (readUser_moves h hq)
  | copyTo bytes => exact absurd rfl (hstore bytes)
  | touch write =>
    obtain ⟨q, hq, -⟩ := liftPager_eq_ok.1 run
    rcases touch_cases hq with rfl | ⟨hpresent, hmoves⟩
    · exact hsteady
    · refine Steady.moves (m := ⟨s, none⟩) (n := ⟨t, none⟩) hsteady hfits h hmoves ?_ ?_
      · rintro l (rfl | ⟨-, rfl⟩) <;> exact True.intro
      · rintro other (hl | ⟨rfl, hl⟩)
        · cases hl
        · cases hl
          refine ⟨?_, fun hshares => hspared (.inr ⟨_, ⟨rfl, hpresent⟩, hshares⟩)⟩
          rintro page (hl | ⟨-, hl⟩) <;> cases hl
  | duplicate refuses =>
    have hne : pl.space ≠ s.nextSpace := by
      intro hspace
      obtain ⟨sp, hsp, -⟩ := exists_space_of_pageAt hp
      rw [hspace, h.fresh s.nextSpace (Nat.le_refl _)] at hsp
      cases hsp
    refine hquiet (perform_moves h run) ?_ ?_
    · rintro l (hl | hl)
      · cases l <;> first | exact True.intro | exact hl.elim
      · exact hclears hne hl
    · rintro other (hl | hl) <;> exact hl
  | pin | fault =>
    refine hquiet (perform_moves h run) ?_ ?_
    · rintro l (hl | hl) <;> cases l <;> first | exact True.intro | exact hl.elim
    · rintro other (hl | hl) <;> exact hl
  | _ =>
    refine hquiet (perform_moves h run) (fun l hl => ?_) fun _ hl => hl
    cases l <;> first | exact True.intro | exact hl.elim

/-- Every operation keeps what a page shows but for what it stores there, as long as the page is
not taken away. -/
theorem Steady.of_step (hsteady : s.Steady pl file c) (hfits : file.readBytes ≤ pageSize)
    (hs : Reachable s) {r : Except Failure Value} (run : step op s = .ok (r, t))
    (hstays : (Pager.pageAt t.spaces pl).isSome = true) (hspared : ¬ s.Meddles pl file op t) :
    t.Steady pl file (pl.after s op c) := by
  have h := hs.coherent
  have hquiet : (∀ l, op.Makes s l → l.Spares pl) → (∀ other, ¬ op.Makes s (.soil other)) →
      t.Steady pl file c := fun hl hsoil =>
    Steady.moves (m := ⟨s, none⟩) (n := ⟨t, none⟩) hsteady hfits h (step_moves h run) hl
      fun other hkind => absurd hkind (hsoil other)
  cases op with
  | onSpace id address op =>
    by_cases hstore : ∃ bytes, op = .copyTo bytes
    · obtain ⟨bytes, rfl⟩ := hstore
      unfold Place.after
      dsimp only
      rcases copyTo_cases run with ⟨hcount, rfl⟩ | ⟨hcount, q, hq⟩
      · rw [hcount, List.take_zero]
        simp only [Flat.receives_nil]
        exact hsteady
      · rw [hcount]
        refine hsteady.writePieces hfits h (Nat.le_refl _) hq fun i hi hshares => hspared (.inr ?_)
        exact ⟨_, ⟨i, hcount ▸ hi, rfl⟩, hshares⟩
    · have hsame : pl.after s (.onSpace id address op) c = c := by
        cases op <;> first | rfl | exact absurd ⟨_, rfl⟩ hstore
      rw [hsame]
      rcases onSpace_cases run with ⟨-, -, hrun⟩ | ⟨-, rfl⟩
      · exact hsteady.of_perform hfits hs (fun bytes he => hstore ⟨bytes, he⟩) hrun hstays hspared
      · exact hsteady
  | createSpace =>
    refine hquiet (fun l hl => ?_) fun other hl => ?_
    · rcases hl with rfl | rfl <;> exact True.intro
    · rcases hl with hl | hl <;> cases hl
  | unlock =>
    refine hquiet (fun l hl => ?_) fun _ hl => hl
    cases l <;> first | exact True.intro | exact hl.elim
  | switchDisk =>
    refine hquiet (fun l hl => ?_) fun _ hl => by cases hl
    cases hl
    exact True.intro
  | openFile =>
    rcases requireHeld_bind_eq_ok.1 run with ⟨-, hrun⟩ | ⟨-, -, rfl⟩
    · rcases onFiles_bind_eq_ok.1 hrun with ⟨_, files, hopen, hlast⟩ | ⟨_, files, hopen, -, rfl⟩
      · cases hlast
        exact hsteady.of_logs (.of_hold hopen)
      · exact hsteady.of_logs (.of_hold hopen)
    · exact hsteady
  | closeFile =>
    cases run
    exact hsteady.of_logs (.of_data rfl fun _ => rfl)
  | switchFile =>
    rcases requireHeld_bind_eq_ok.1 run with ⟨-, hrun⟩ | ⟨-, -, rfl⟩
    · cases hrun
      exact hsteady.of_logs (.of_update _ fun _ _ => rfl)
    · exact hsteady
  | writeFile handle offset bytes =>
    have hsame : ∀ i < file.readBytes, file.byte? t.files i = file.byte? s.files i := by
      intro i hi
      by_contra hne
      exact hspared (.inl ⟨handle, offset, bytes, rfl, i, hi, hne⟩)
    rcases requireHeld_bind_eq_ok.1 run with ⟨-, hrun⟩ | ⟨-, -, rfl⟩
    · rcases onFiles_bind_eq_ok.1 hrun with ⟨_, files, -, hlast⟩ | ⟨_, files, -, -, rfl⟩
      · cases hlast
        exact hsteady.of_files hsame
      · exact hsteady.of_files hsame
    · exact hsteady

/-- What the page at `pl` shows: the bytes in its frame, or those that it will be filled with. -/
def shown (s : Machine) (pl : Place) (file : FileBacking) (i : Nat) : UInt8 :=
  match (Pager.pageAt s.spaces pl).bind Page.frame with
  | some f => (s.frameBytes f)[i]?.getD 0
  | none => if i < file.readBytes then (file.byte? s.files i).getD 0 else 0

/-- The page at `pl` stands for a part of a file. It waits for nothing but to be filled from there,
and unless it is dirty its frame agrees with the file. A page that holds what another initializer
made is not in sync before it is stored to or moved out. -/
structure InSync (s : Machine) (pl : Place) (file : FileBacking) : Prop where
  registered : ∃ p, Pager.pageAt s.spaces pl = some p ∧ file.Fills p
  clean : ¬ s.Dirty pl → ∀ {p f i byte}, Pager.pageAt s.spaces pl = some p → p.frame = some f →
    i < file.readBytes → file.byte? s.files i = some byte → (s.frameBytes f)[i]? = some byte

/-- A page that lies in no frame has nothing there that its file could miss. -/
theorem InSync.of_absent {p : Page} (hp : Pager.pageAt s.spaces pl = some p) (hfills : file.Fills p)
    (habs : p.frame = none) : s.InSync pl file where
  registered := ⟨p, hp, hfills⟩
  clean := by
    intro _ q f i byte hq hf
    cases hp.symm.trans hq
    cases habs.symm.trans hf

/-- A page of a file starts in sync if it is registered with the initializer of its type. -/
theorem register_inSync {handle : Handle} {writable : Bool} {init : Option Initializer}
    {slice : LoadSlice} (hinit : init = none ∨ init = some .fileSlice)
    (hfile : slice.file = some handle)
    (run : register id a writable .fileBacked init slice s = .ok (.ok (), t)) :
    t.InSync (.of id a) {
      file := handle
      offset := slice.offset
      readBytes := slice.readBytes
      mapping := none } := by
  rcases register_cases run with ⟨-, hadds⟩ | ⟨e, he, -⟩
  · obtain ⟨sp, hs, -, rfl⟩ := hadds.single
    have hspace : s.spaces.get? (Place.of id a).space = some sp := hs
    refine .of_absent ((congrFun (Coherent.pageAt_put hspace _ rfl) _).trans
      (Function.update_self ..)) ⟨?_, fun u hu => ?_⟩ rfl
    · rw [Page.backing?, Page.fresh]
      dsimp only
      rw [Unpopulated.populated, hfile]
    · cases hu
      rcases hinit with rfl | rfl <;> rfl
  · cases he

theorem InSync.retains (h : s.InSync pl file) : s.Retains pl file (s.shown pl file) where
  registered := h.registered
  resident := by
    intro p f i byte hp hf hbyte
    refine .inl ?_
    rw [shown, hp, Option.bind_some, hf]
    dsimp only
    rw [hbyte, Option.getD_some]
  saved := by
    intro hclean i byte hi hbyte
    obtain ⟨p, hp, -⟩ := h.registered
    rw [shown, hp, Option.bind_some]
    cases hf : p.frame with
    | none =>
      dsimp only
      rw [if_pos hi, hbyte, Option.getD_some]
    | some f =>
      dsimp only
      rw [h.clean hclean hp hf hi hbyte, Option.getD_some]

/-- The page at `pl` is not taken away, and nobody else works on its part of the file. -/
def Untroubled (pl : Place) (file : FileBacking) : List Op → Machine → Prop
  | [], _ => True
  | op :: rest, s => ∀ r t, step op s = .ok (r, t) →
      (Pager.pageAt t.spaces pl).isSome = true ∧ ¬ s.Meddles pl file op t ∧
        Untroubled pl file rest t

theorem Steady.of_run {ops : List Op} {results : List (Except Failure Value)}
    (hsteady : s.Steady pl file c) (hfits : file.readBytes ≤ pageSize) (hs : Reachable s)
    (hops : Untroubled pl file ops s) (hrun : run ops s = .ok (results, t)) :
    t.Steady pl file (pl.afterAll ops s c) := by
  induction ops generalizing s results c with
  | nil =>
    cases hrun
    exact hsteady
  | cons op rest ih =>
    obtain ⟨r, u, later, hstep, hrest, -⟩ := run_cons_eq_ok.1 hrun
    obtain ⟨hstays, hspared, hthen⟩ := hops r u hstep
    rw [Place.afterAll, hstep]
    exact ih (hsteady.of_step hfits hs hstep hstays hspared) (hs.of_step hstep) hthen hrest

/-- A page of a file shows after any run what it would show if it had stayed in its frame all the
time: what it showed at first with what was stored to it since. Only bytes behind its part of the
file may have been lost instead, and then they are zero. -/
theorem Reachable.eviction_transparent (hs : Reachable s) (hsync : s.InSync pl file)
    (hfits : file.readBytes ≤ pageSize) (hsole : s.Sole pl file) {ops : List Op}
    {results : List (Except Failure Value)} (hops : Untroubled pl file ops s)
    (hrun : run ops s = .ok (results, t)) {bytes : Bytes} {u : Machine}
    (hread : step (.onSpace pl.space pl.key (.copyFrom pageSize)) t = .ok (.ok (.bytes bytes), u)) :
    bytes.length = pageSize ∧ ∀ i < pageSize,
      bytes[i]? = some (pl.afterAll ops s (s.shown pl file) i) ∨
        file.readBytes ≤ i ∧ bytes[i]? = some 0 := by
  have hsteady := Steady.of_run ⟨hsync.retains, hsole⟩ hfits hs hops hrun
  rcases requireIdle_cases hread with ⟨sp, -, -, hidle⟩ | ⟨⟨_, hr⟩, -⟩
  · obtain ⟨a, ha, hidle⟩ := Action.liftM_bind_eq_ok.1 hidle
    obtain ⟨-, rfl⟩ := Address.make_eq_ok.1 ha
    obtain ⟨q, hq, hr⟩ := liftPager_eq_ok.1 hidle
    cases q with
    | error e => cases hr
    | ok read =>
      cases hr
      exact hsteady.readPage hfits (hs.of_run hrun).coherent hq
  · cases hr

/-- A byte of the file's three is stored, and one behind them, and then the page has to go. -/
def overshooting : List Op := [.onSpace 1 0x10001 (.copyTo [7]), .onSpace 1 0x10004 (.copyTo [9]),
  .onSpace 2 0x20000 .claim]

/-- The page comes back with the byte that went to the file, and without the one behind it. -/
theorem eviction_transparent_of_overshooting : ∃ (s t u : Machine)
    (results : List (Except Failure Value)) (bytes : Bytes), Reachable s ∧
    s.InSync ⟨1, 0x10000⟩ ⟨⟨0, 0⟩, 0, 3, none⟩ ∧ s.Sole ⟨1, 0x10000⟩ ⟨⟨0, 0⟩, 0, 3, none⟩ ∧
    Untroubled ⟨1, 0x10000⟩ ⟨⟨0, 0⟩, 0, 3, none⟩ overshooting s ∧
    run overshooting s = .ok (results, t) ∧
    step (.onSpace 1 0x10000 (.copyFrom 4096)) t = .ok (.ok (.bytes bytes), u) ∧
    bytes.length = 4096 ∧ (∀ i < 4096, bytes[i]? = some (Place.afterAll ⟨1, 0x10000⟩ overshooting s
      (s.shown ⟨1, 0x10000⟩ ⟨⟨0, 0⟩, 0, 3, none⟩) i) ∨ 3 ≤ i ∧ bytes[i]? = some 0) ∧
    (List.range 5).map (Place.afterAll ⟨1, 0x10000⟩ overshooting s
      (s.shown ⟨1, 0x10000⟩ ⟨⟨0, 0⟩, 0, 3, none⟩)) = [1, 7, 3, 0, 9] ∧
    bytes.take 5 = [1, 7, 3, 0, 0] := by
  have hend : (boot 1 8 [[1, 2, 3]] >>= fun start => run halving start >>= fun before =>
      step (.onSpace 1 0x10000 (.register true .fileBacked none
        { file := some ⟨0, 0⟩, readBytes := 3 })) before.2 >>= fun registered =>
      step (.onSpace 1 0x10001 (.copyTo [7])) registered.2 >>= fun first =>
      step (.onSpace 1 0x10004 (.copyTo [9])) first.2 >>= fun second =>
      step (.onSpace 2 0x20000 .claim) second.2 >>= fun third =>
      step (.onSpace 1 0x10000 (.copyFrom 4096)) third.2 >>= fun read =>
        .ok (registered.1.toBool && registered.2.frames.slots.isEmpty &&
            [first.2, second.2, third.2].all fun m => (Pager.pageAt m.spaces ⟨1, 0x10000⟩).isSome,
          [Op.storedCount registered.2 (.onSpace 1 0x10001 (.copyTo [7])),
            Op.storedCount first.2 (.onSpace 1 0x10004 (.copyTo [9]))],
          (List.range 5).map (Place.afterAll ⟨1, 0x10000⟩ overshooting registered.2
            (registered.2.shown ⟨1, 0x10000⟩ ⟨⟨0, 0⟩, 0, 3, none⟩)),
          (bytesRead [read.1] 0).map (List.take 5))) =
      .ok (true, [1, 1], [1, 7, 3, 0, 9], some [1, 7, 3, 0, 0]) := by
    decide +kernel
  obtain ⟨start, hboot, hend⟩ := except_bind_eq_ok.1 hend
  obtain ⟨⟨answers, before⟩, hhalving, hend⟩ := except_bind_eq_ok.1 hend
  obtain ⟨⟨registered, s⟩, hregister, hend⟩ := except_bind_eq_ok.1 hend
  obtain ⟨⟨r, s₁⟩, hfirst, hend⟩ := except_bind_eq_ok.1 hend
  obtain ⟨⟨r', s₂⟩, hsecond, hend⟩ := except_bind_eq_ok.1 hend
  obtain ⟨⟨r'', s₃⟩, hthird, hend⟩ := except_bind_eq_ok.1 hend
  obtain ⟨⟨read, u⟩, hread, hend⟩ := except_bind_eq_ok.1 hend
  obtain ⟨hdone, hrest⟩ := Prod.mk.inj (Except.ok.inj hend)
  obtain ⟨hcounts, hrest⟩ := Prod.mk.inj hrest
  obtain ⟨hshown, hbytes⟩ := Prod.mk.inj hrest
  simp only [Bool.and_eq_true, List.all_cons, List.all_nil, and_true] at hdone
  obtain ⟨⟨hregistered, hframes⟩, hstays₁, hstays₂, hstays₃⟩ := hdone
  simp only [List.cons.injEq, and_true] at hcounts
  obtain ⟨hcount₁, hcount₂⟩ := hcounts
  obtain ⟨bytes, hbytes, htake⟩ := Option.map_eq_some_iff.1 hbytes
  cases Option.some.inj (of_bytesRead hbytes)
  cases registered with
  | error => cases hregistered
  | ok value => ?_
  have hbefore : Reachable before := ⟨1, 8, [[1, 2, 3]], halving, start, answers, hboot, hhalving⟩
  have hs : Reachable s := hbefore.of_step hregister
  have hsync : s.InSync ⟨1, 0x10000⟩ ⟨⟨0, 0⟩, 0, 3, none⟩ := by
    rcases requireIdle_cases hregister with ⟨sp, -, -, hidle⟩ | ⟨⟨_, hr⟩, -⟩
    · obtain ⟨a, ha, hidle⟩ := Action.liftM_bind_eq_ok.1 hidle
      obtain ⟨-, rfl⟩ := Address.make_eq_ok.1 ha
      rcases performRegister_cases hidle with ⟨q, -, hq, hr⟩ | ⟨hr, -⟩
      · cases q with
        | error e => cases hr
        | ok => exact register_inSync (.inl rfl) rfl hq
      · cases hr
    · cases hr
  have hsole : s.Sole ⟨1, 0x10000⟩ ⟨⟨0, 0⟩, 0, 3, none⟩ := by
    intro other g bytes hsoiled
    obtain ⟨p, f, -, hp, -, hf, -⟩ := hsoiled
    obtain ⟨fr, -, hfr, -⟩ := hs.coherent.linked.page_frame hp hf
    have hget : s.frames.get? f = some fr := hfr
    rw [FrameTable.get?, List.isEmpty_iff.1 hframes] at hget
    cases hget
  have hspared : ∀ {m n : Machine} {address : Nat} {byte : UInt8},
      Op.storedCount m (.onSpace 1 address (.copyTo [byte])) = 1 →
      Place.containing 1 address = ⟨1, 0x10000⟩ →
      ¬ m.Meddles ⟨1, 0x10000⟩ ⟨⟨0, 0⟩, 0, 3, none⟩ (.onSpace 1 address (.copyTo [byte])) n := by
    rintro m n address byte hcount hplace (⟨_, _, _, he, -⟩ | ⟨other, ⟨i, hi, rfl⟩, hshares⟩)
    · cases he
    · obtain rfl : i = 0 := by omega
      exact hshares.1 hplace
  have hops : Untroubled ⟨1, 0x10000⟩ ⟨⟨0, 0⟩, 0, 3, none⟩ overshooting s := by
    intro _ _ h₁
    cases hfirst.symm.trans h₁
    refine ⟨hstays₁, hspared hcount₁ rfl, ?_⟩
    intro _ _ h₂
    cases hsecond.symm.trans h₂
    refine ⟨hstays₂, hspared hcount₂ rfl, ?_⟩
    intro _ _ h₃
    cases hthird.symm.trans h₃
    refine ⟨hstays₃, ?_, True.intro⟩
    rintro (⟨_, _, _, he, -⟩ | ⟨other, hstores, -⟩)
    · cases he
    · exact hstores
  have hrun : run overshooting s = .ok ([r, r', r''], s₃) :=
    run_cons_eq_ok.2 ⟨r, s₁, _, hfirst, run_cons_eq_ok.2 ⟨r', s₂, _, hsecond,
      run_cons_eq_ok.2 ⟨r'', s₃, _, hthird, rfl, rfl⟩, rfl⟩, rfl⟩
  obtain ⟨hlength, hsame⟩ := hs.eviction_transparent hsync (by decide) hsole hops hrun hread
  exact ⟨s, s₃, u, _, bytes, hs, hsync, hsole, hops, hrun, hread, hlength, hsame, hshown, htake⟩

/-- What operations come to when so many frames are there: whether all of them succeed, how many
pages are moved out, and the first bytes that the last one reads. -/
def outcome (frames : Nat) (ops : List Op) : Except Bug (Bool × Nat × Option (List UInt8)) := do
  let start ← boot frames 8 [[1, 2, 3]]
  let (results, t) ← run ops start
  return (results.all Except.toBool, t.evictions,
    (bytesRead results (ops.length - 1)).map (List.take 5))

/-- A byte is stored behind the part of the file. -/
def spilling : List Op := halving ++ [
  .onSpace 1 0x10000 (.register true .fileBacked none { file := some ⟨0, 0⟩, readBytes := 3 }),
  .onSpace 1 0x10004 (.copyTo [9]), .onSpace 2 0x20000 .claim,
  .onSpace 1 0x10000 (.copyFrom 4096)]

/-- The page has an initializer that does not ask the file. -/
def inventing : List Op := halving ++ [
  .onSpace 1 0x10000 (.register true .fileBacked (some (.computed fun _ _ => .ok fun _ => 5))
    { file := some ⟨0, 0⟩, readBytes := 3 }),
  .onSpace 1 0x10000 .claim, .onSpace 2 0x20000 .claim, .onSpace 1 0x10000 (.copyFrom 4096)]

/-- With one frame the page has to go, with two it stays. What is read differs if something was
stored behind its part of the file, or if it was filled with something else and not stored to. -/
theorem eviction_shows :
    outcome 1 spilling = .ok (true, 2, some [1, 2, 3, 0, 0]) ∧
      outcome 2 spilling = .ok (true, 0, some [1, 2, 3, 0, 9]) ∧
      outcome 1 inventing = .ok (true, 2, some [1, 2, 3, 0, 0]) ∧
      outcome 2 inventing = .ok (true, 0, some [5, 5, 5, 5, 5]) := by
  refine ⟨?_, ?_, ?_, ?_⟩ <;> decide +kernel

end Machine
end Pager
