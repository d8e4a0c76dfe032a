import Pager.Proofs.Backing
import Pager.Proofs.Stores

/-!
What a page of a file shows while it is moved out and in. Its part of the file is in its frame
or, unless it is dirty, in the file, so it comes back as it went, provided that nobody else
changes the part. The bytes behind the part are in the frame only, and come back as zeros.
-/
namespace Pager

open Function

/-- Byte `i` of the part, as it is in the file. -/
def FileBacking.byte? (file : FileBacking) (files : FileStore) (i : Nat) : Option UInt8 :=
  (files.data? file.file.file).bind fun data => data[file.offset + i]?

namespace Machine

/-- The page at `other` is another one that stands for some of the same bytes. -/
def Shares (s : Machine) (pl : Place) (file : FileBacking) (other : Place) : Prop :=
  other ≠ pl ∧ ∃ p g, Pager.pageAt s.spaces other = some p ∧ p.backing? = some g ∧ file.Meets g

/-- Nobody else has stored to the part of the file that the page at `pl` stands for. -/
def Sole (s : Machine) (pl : Place) (file : FileBacking) : Prop :=
  ∀ other g bytes, s.Soiled other g bytes → other ≠ pl → ¬ file.Meets g

/-- The page at `pl` shows the bytes `c`, but for those behind its part of the file that were
lost. What is not in its frame is in the file. -/
structure Retains (s : Machine) (pl : Place) (file : FileBacking) (c : Nat → UInt8) : Prop where
  registered : ∃ p, Pager.pageAt s.spaces pl = some p ∧ file.Fills p
  resident : ∀ {p f i byte}, Pager.pageAt s.spaces pl = some p → p.frame = some f →
    (s.frameBytes f)[i]? = some byte → byte = c i ∨ file.readBytes ≤ i ∧ byte = 0
  saved : ¬ s.Dirty pl → ∀ {i byte}, i < file.readBytes → file.byte? s.files i = some byte →
    byte = c i

end Machine

/-- The page at `pl` is not taken away or stored to, and nobody works on the files. -/
def Label.Spares (pl : Place) : Label → Prop
  | .unseat other _ | .remove other _ | .store other _ _ => other ≠ pl
  | .outside => False
  | _ => True

section

variable {pl other : Place} {file : FileBacking} {c : Nat → UInt8} {m n : Moment} {l : Label}
  {kinds : Label → Prop}

theorem shares_before (h : Coherent m) (hmove : Move l m n)
    (hl : ∀ page, l ≠ .register other page) (hn : n.machine.Shares pl file other) :
    m.machine.Shares pl file other := by
  obtain ⟨hne, q, g, hq, hback, hmeets⟩ := hn
  rcases h.page_before hmove hq with hreg | ⟨p, hp, hages⟩
  · exact absurd hreg (hl q)
  · exact ⟨hne, p, g, hp, hages.backing?.symm.trans hback, hmeets⟩

theorem Machine.Sole.move (hsole : m.machine.Sole pl file) (h : Coherent m) (hmove : Move l m n)
    (hl : ∀ other, l = .soil other → ¬ n.machine.Shares pl file other) :
    n.machine.Sole pl file := by
  intro other g bytes hsoiled hne hmeets
  by_cases hsoil : l = .soil other
  · obtain ⟨p, -, -, hp, hk, -⟩ := hsoiled
    exact hl other hsoil ⟨hne, p, g, hp, by rw [Page.backing?, hk], hmeets⟩
  · obtain ⟨bytes', hbefore⟩ := h.soiled_before hmove hsoiled hsoil
    exact hsole other g bytes' hbefore hne hmeets

/-- What a call of the page itself leaves of its part of the file is what the page shows, and no
other call reaches it. -/
theorem Machine.Retains.sent (hretains : m.machine.Retains pl file c)
    (hsole : m.machine.Sole pl file) {call : WriteCall}
    (hsends : m.machine.Sends other call) {data : Bytes} {i : Nat} {byte : UInt8}
    (hi : i < file.readBytes)
    (hbyte : (call.apply file.file.file data)[file.offset + i]? = some byte) :
    data[file.offset + i]? = some byte ∨ byte = c i := by
  obtain ⟨g, bytes, hsoiled, hhandle, hoffset, hbytes⟩ := hsends
  unfold WriteCall.apply at hbyte
  by_cases hfile : call.handle.file = file.file.file
  · rw [if_pos hfile] at hbyte
    have hlt : file.offset + i < data.length := by
      have hlength := (List.getElem?_eq_some_iff.1 hbyte).1
      rwa [Bytes.length_overlay] at hlength
    rw [Bytes.getElem?_overlay _ _ _ hlt] at hbyte
    split at hbyte
    · rename_i hin
      obtain ⟨j, hj⟩ := Nat.exists_eq_add_of_le hin.1
      rw [hj, Nat.add_sub_cancel_left, hbytes, List.getElem?_take, List.getElem?_take] at hbyte
      have hread : j < call.taken ∧ j < g.readBytes := by
        have hlength := hin.2
        rw [hbytes, List.length_take, List.length_take] at hlength
        omega
      rw [if_pos hread.1, if_pos hread.2] at hbyte
      by_cases hself : other = pl
      · subst hself
        obtain ⟨p, f, e, hp, hk, hf, he, hd, rfl⟩ := hsoiled
        obtain ⟨p', hp', hback, -⟩ := hretains.registered
        cases hp.symm.trans hp'
        rw [Page.backing?, hk] at hback
        cases Option.some.inj hback
        obtain rfl : i = j := Nat.add_left_cancel (hj.trans (by rw [hoffset]))
        exact .inr ((hretains.resident hp hf hbyte).resolve_right fun hbehind =>
          Nat.not_le.2 hi hbehind.1)
      · refine absurd ⟨?_, i, hi, j, hread.2, ?_⟩ (hsole other g bytes hsoiled hself)
        · rw [← hfile, hhandle]
        · rw [hj, hoffset]
    · exact .inl hbyte
  · rw [if_neg hfile] at hbyte
    exact .inl hbyte

/-- The part of the file stays, or gets what the page shows. -/
theorem Machine.Retains.yields (hretains : m.machine.Retains pl file c)
    (hsole : m.machine.Sole pl file) (h : Coherent m) (hmove : Move l m n) (hl : l ≠ .outside)
    {i : Nat} {byte : UInt8} (hi : i < file.readBytes)
    (hbyte : file.byte? n.machine.files i = some byte) :
    file.byte? m.machine.files i = some byte ∨ byte = c i := by
  obtain ⟨after, hafter, hbyte⟩ := Option.bind_eq_some_iff.1 hbyte
  have hbefore : ∀ {data : Bytes}, m.machine.files.data? file.file.file = some data →
      file.byte? m.machine.files i = data[file.offset + i]? := fun hdata => by
    rw [FileBacking.byte?, hdata, Option.bind_some]
  rcases h.logs_inside hmove hl with hlogs | ⟨call, hlogs, other, hsends⟩
  all_goals
    rw [hlogs.data] at hafter
    obtain ⟨data, hdata, rfl⟩ := Option.map_eq_some_iff.1 hafter
    rw [hbefore hdata]
  · exact .inl hbyte
  · exact hretains.sent hsole hsends hi hbyte

/-- A page that is moved in shows its part of the file, and zeros behind it. -/
theorem Machine.Retains.populate (hretains : m.machine.Retains pl file c) (h : Coherent m)
    (hmove : Move (.populate pl) m n) {q : Page} {f : FrameId} {i : Nat} {byte : UInt8}
    (hq : Pager.pageAt n.machine.spaces pl = some q) (hf : q.frame = some f)
    (hbyte : (n.machine.frameBytes f)[i]? = some byte) :
    byte = c i ∨ file.readBytes ≤ i ∧ byte = 0 := by
  obtain ⟨p, g, frame, t, hp, habs, hlen, ht, hq', hframe⟩ := h.populated hmove
  obtain ⟨p', hp', hfills⟩ := hretains.registered
  cases hp.symm.trans hp'
  cases hq.symm.trans hq'
  cases hf
  obtain ⟨found, hfound, hslice, hfilled⟩ := hfills.loaded ht
  rw [hframe, hfilled] at hbyte
  by_cases hi : i < file.readBytes
  · rw [List.getElem?_append_left (by omega), Bytes.getElem?_slice, if_pos hi] at hbyte
    refine .inl (hretains.saved (h.not_dirty_of_absent hp habs) hi ?_)
    rw [FileBacking.byte?, FileStore.data?_of_file? hfound, Option.bind_some, hbyte]
  · refine .inr ⟨Nat.not_lt.1 hi, ?_⟩
    rw [List.getElem?_append_right (by omega), Bytes.zeros] at hbyte
    exact List.eq_of_mem_replicate (List.mem_of_getElem? hbyte)

/-- A page that was moved out left in its file what it showed. -/
theorem Machine.Retains.evict (hretains : m.machine.Retains pl file c)
    (hfits : file.readBytes ≤ pageSize) (h : Coherent m)
    (hmove : Move (.evict pl) m n) (hd : m.machine.Dirty pl) {i : Nat} {byte : UInt8}
    (hi : i < file.readBytes) (hbyte : file.byte? n.machine.files i = some byte) :
    byte = c i := by
  obtain ⟨after, hafter, hbyte⟩ := Option.bind_eq_some_iff.1 hbyte
  obtain ⟨p, hp, hfills⟩ := hretains.registered
  obtain ⟨q, f, hq, hf⟩ := h.resident_of_dirty hd
  cases hp.symm.trans hq
  obtain ⟨e, he, hdirty⟩ := hd
  have hkind := hfills.kind (h.linked.ready hp hf).1
  have hsoiled : m.machine.Soiled pl file (m.machine.frameBytes f) :=
    ⟨p, f, e, hp, hkind, hf, he, hdirty, rfl⟩
  have hlogs := h.logs_evict hmove hsoiled
  rw [hlogs.data] at hafter
  obtain ⟨data, -, rfl⟩ := Option.map_eq_some_iff.1 hafter
  have hlength : (m.machine.frameBytes f).length = pageSize := by
    obtain ⟨fr, -, hg, -⟩ := h.linked.page_frame hp hf
    rw [Machine.frameBytes_of_get? hg, h.length_frame hg]
  change (WriteCall.apply _ file.file.file data)[file.offset + i]? = some byte at hbyte
  have hlt := (List.getElem?_eq_some_iff.1 hbyte).1
  rw [WriteCall.length_apply] at hlt
  rw [WriteCall.getElem?_apply_full hi (by omega) hlt] at hbyte
  exact (hretains.resident hp hf hbyte).resolve_right fun hbehind => Nat.not_le.2 hi hbehind.1

/-- What a page of a file shows survives every move that spares it. -/
theorem Machine.Retains.move (hretains : m.machine.Retains pl file c)
    (hfits : file.readBytes ≤ pageSize) (hsole : m.machine.Sole pl file) (h : Coherent m)
    (hmove : Move l m n) (hl : l.Spares pl) : n.machine.Retains pl file c := by
  obtain ⟨p, hp, hfills⟩ := hretains.registered
  refine ⟨?_, ?_, ?_⟩
  · rcases h.page_after hmove hp with rfl | ⟨q, hq, hages⟩
    · exact absurd rfl hl
    · exact ⟨q, hq, hfills.ages hages⟩
  · intro q f i byte hq hf hbyte
    rcases h.resident_before hmove hq hf with (rfl | rfl) | hsame
    · exact hretains.populate h hmove hq hf hbyte
    · cases hmove with
      | seat _ hs hp' _ hkind =>
        cases hp.symm.trans (Coherent.pageAt_eq hs hp')
        have hback := hfills.1
        rw [Page.backing?, hkind] at hback
        cases hback
    · rw [h.frameBytes_kept hmove hsame hf (by rintro start bytes rfl; exact hl rfl)] at hbyte
      exact hretains.resident hsame hf hbyte
  · intro hclean i byte hi hbyte
    by_cases hd : m.machine.Dirty pl
    · obtain rfl : l = .evict pl := by
        by_contra hevict
        obtain ⟨q, f, hq, hf⟩ := h.resident_of_dirty hd
        obtain ⟨e, he, hdirty⟩ := hd
        exact hclean (h.dirty_kept hmove hq hf hevict (by rintro rfl; exact hl rfl) he hdirty)
      exact hretains.evict hfits h hmove hd hi hbyte
    · rcases hretains.yields hsole h hmove (by rintro rfl; exact hl) hi hbyte with hold | heq
      · exact hretains.saved hd hi hold
      · exact heq

/-- Bytes that are stored to a dirty page are what it shows from then on. -/
theorem Machine.Retains.store {id : SpaceId} {a : VirtualAddress} {bytes : Bytes}
    (hretains : m.machine.Retains (.of id a) file c) (h : Coherent m)
    (hmove : Move (.store (.of id a) a.pageOffset bytes) m n)
    (hd : m.machine.Dirty (.of id a)) : n.machine.Retains (.of id a) file fun i =>
      (Place.of id a).receives id a.value bytes i (c i) := by
  cases hmove with
  | @store s _ f fr _ _ pool hf ho hw =>
    refine ⟨hretains.registered, ?_, fun hclean => absurd hd hclean⟩
    intro p g i byte hp hg hbyte
    obtain ⟨sp, hs, hget⟩ := exists_space_of_pageAt hp
    have hres := h.resident_of_owner hf ho hs hget
    cases hres.symm.trans hg
    have hlength : (s.frameBytes f).length = pageSize := by
      rw [Machine.frameBytes_of_get? hf, h.length_frame hf]
    have hbyte : ((s.frameBytes f).overlay a.pageOffset bytes)[i]? = some byte := by
      rw [← hbyte, h.frameBytes_write hf hw, update_self]
    have hi : i < pageSize := by
      have hlt := (List.getElem?_eq_some_iff.1 hbyte).1
      rwa [Bytes.length_overlay, hlength] at hlt
    rw [Bytes.getElem?_overlay _ _ _ (by omega)] at hbyte
    rw [Place.receives_of_fits (Place.of_eq_containing id a) hi]
    rw [show a.pageOffset = a.value % pageSize from rfl] at hbyte
    split at hbyte
    · rename_i hin
      rw [if_pos hin]
      exact .inl (by rw [hbyte, Option.getD_some])
    · rename_i hout
      rw [if_neg hout]
      exact hretains.resident hp hres hbyte

/-- What the page at `pl` shows, while nobody else stored to its part of the file. -/
structure Machine.Steady (s : Machine) (pl : Place) (file : FileBacking) (c : Nat → UInt8) :
    Prop where
  retains : s.Retains pl file c
  sole : s.Sole pl file

theorem Machine.Steady.move (hsteady : m.machine.Steady pl file c)
    (hfits : file.readBytes ≤ pageSize) (h : Coherent m) (hmove : Move l m n) (hl : l.Spares pl)
    (hsoil : ∀ other, l = .soil other → ¬ n.machine.Shares pl file other) :
    n.machine.Steady pl file c where
  retains := hsteady.retains.move hfits hsteady.sole h hmove hl
  sole := hsteady.sole.move h hmove hsoil

theorem shares_before_moves (h : Coherent m) (hmoves : Moves kinds m n)
    (hl : ∀ page, ¬ kinds (.register other page)) (hn : n.machine.Shares pl file other) :
    m.machine.Shares pl file other :=
  h.preserves (P := fun o => o.machine.Shares pl file other → m.machine.Shares pl file other)
    hmoves (fun hkind ho hbefore hmove hafter => hbefore (shares_before ho hmove
      (fun page he => hl page (he ▸ hkind)) hafter)) id hn

theorem Machine.Steady.moves (hsteady : m.machine.Steady pl file c)
    (hfits : file.readBytes ≤ pageSize) (h : Coherent m) (hmoves : Moves kinds m n)
    (hl : ∀ l, kinds l → l.Spares pl) (hsoil : ∀ other, kinds (.soil other) →
      (∀ page, ¬ kinds (.register other page)) ∧ ¬ m.machine.Shares pl file other) :
    n.machine.Steady pl file c := by
  have hboth := h.preserves (P := fun o => o.machine.Steady pl file c ∧
    ∀ other, (∀ page, ¬ kinds (.register other page)) → o.machine.Shares pl file other →
      m.machine.Shares pl file other) hmoves
    (by
      intro l o o' hkind ho hbefore hmove
      obtain ⟨hsteady, hshares⟩ := hbefore
      have hback : ∀ other, (∀ page, ¬ kinds (.register other page)) →
          o'.machine.Shares pl file other → m.machine.Shares pl file other :=
        fun other hnone hafter => hshares other hnone
          (shares_before ho hmove (fun page he => hnone page (he ▸ hkind)) hafter)
      refine ⟨hsteady.move hfits ho hmove (hl l hkind) ?_, hback⟩
      rintro other rfl hafter
      obtain ⟨hnone, hspared⟩ := hsoil other hkind
      exact hspared (hback other hnone hafter))
    ⟨hsteady, fun _ _ hshares => hshares⟩
  exact hboth.1

end

namespace Machine

variable {s t : Machine} {pl : Place} {file : FileBacking} {c : Nat → UInt8} {id : SpaceId}
  {a : VirtualAddress}

theorem Steady.claimed {among : Place → Prop} (hsteady : s.Steady pl file c)
    (hfits : file.readBytes ≤ pageSize) (h : Coherent ⟨s, none⟩)
    (hmoves : Moves (Label.Claims among) ⟨s, none⟩ ⟨t, none⟩) : t.Steady pl file c :=
  Steady.moves (m := ⟨s, none⟩) (n := ⟨t, none⟩) hsteady hfits h hmoves
    (fun l hl => by cases l <;> first | exact True.intro | exact hl.elim)
    (fun _ hl => hl.elim)

/-- A piece that is stored to the page is what it shows from then on, and one that is stored
elsewhere leaves it alone. -/
theorem Steady.writePiece {bytes : Bytes} {r : Except PagerError Unit}
    (hsteady : s.Steady pl file c) (hfits : file.readBytes ≤ pageSize) (h : Coherent ⟨s, none⟩)
    (hpage : a.value % pageSize + bytes.length ≤ pageSize)
    (run : Machine.writePiece id a bytes s = .ok (r, t))
    (hspared : r = .ok () → ¬ s.Shares pl file (.of id a)) :
    (∃ e, r = .error e) ∧ t.Steady pl file c ∨
      r = .ok () ∧ t.Steady pl file fun i => pl.receives id a.value bytes i (c i) := by
  rcases writePiece_moves h run with ⟨e, rfl, hmoves⟩ |
    ⟨rfl, u, v, x, hclaim, hmark, hsoil, hstore⟩
  · exact .inl ⟨⟨e, rfl⟩, hsteady.claimed hfits h hmoves⟩
  · refine .inr ⟨rfl, ?_⟩
    have hmoves : Moves (fun l => l.Claims (· = .of id a) ∨ l = .soil (.of id a))
        ⟨s, none⟩ ⟨x, none⟩ :=
      ((hclaim.mono fun _ hl => .inl hl).tail hmark (.inl trivial)).tail hsoil (.inr rfl)
    have hx := h.moves hmoves
    have hready : x.Steady pl file c := by
      refine Steady.moves (m := ⟨s, none⟩) (n := ⟨x, none⟩) hsteady hfits h hmoves ?_ ?_
      · rintro l (hl | rfl)
        · cases l <;> first | exact True.intro | exact hl.elim
        · exact True.intro
      · rintro other (hl | hl)
        · exact hl.elim
        · cases hl
          refine ⟨?_, hspared rfl⟩
          rintro page (hl | hl)
          · exact hl
          · cases hl
    have hsole : t.Sole pl file := Sole.move (m := ⟨x, none⟩) (n := ⟨t, none⟩)
      hready.sole hx hstore (by rintro _ ⟨⟩)
    refine ⟨?_, hsole⟩
    by_cases hself : Place.of id a = pl
    · subst hself
      exact Retains.store (m := ⟨x, none⟩) (n := ⟨t, none⟩) hready.retains hx hstore
        (Window.dirty_of_soil hx hsoil hstore)
    · have hsame : (fun i => pl.receives id a.value bytes i (c i)) = c := by
        refine funext fun i => Flat.receives_elsewhere (fun j hj hat => hself ?_) i (c i)
        rw [← hat, Place.of_eq_containing]
        exact (Place.containing_add (by omega)).1.symm
      rw [hsame]
      exact Retains.move (m := ⟨x, none⟩) (n := ⟨t, none⟩) hready.retains hfits hready.sole hx
        hstore hself

theorem Steady.writePieces {start : Nat} {bytes : Bytes} {r : Except PagerError Unit}
    (hsteady : s.Steady pl file c) (hfits : file.readBytes ≤ pageSize) (h : Coherent ⟨s, none⟩)
    (hstart : a.value ≤ start)
    (run : Machine.writePieces id a bytes (pieces start bytes.length) s = .ok (r, t))
    (hspared : ∀ i < storedCount id a bytes (pieces start bytes.length) s,
      ¬ s.Shares pl file (.containing id (start + i))) :
    t.Steady pl file fun i => pl.receives id start
      (bytes.take (storedCount id a bytes (pieces start bytes.length) s)) i (c i) := by
  generalize hlength : bytes.length = length at run hspared ⊢
  induction length using Nat.strongRecOn generalizing s start r bytes c with
  | ind length ih =>
    by_cases hzero : length = 0
    · subst hzero
      cases run
      rw [pieces_zero, storedCount, List.take_zero]
      simp only [Flat.receives_nil]
      exact hsteady
    have hpos := firstPart_pos start (by omega : 0 < length)
    have hle := firstPart_le start length
    have hpage := firstPart_fits start length
    rw [pieces_cons start (by omega)] at run hspared ⊢
    generalize firstPart start length = count at *
    unfold Machine.writePieces at run
    obtain ⟨address, haddress, run⟩ := Action.liftM_bind_eq_ok.1 run
    have hvalue : address.value = start := value_of_add_sub hstart haddress
    have htake : (bytes.take count).length = count := by
      rw [List.length_take]
      omega
    have hdrop : (bytes.drop count).length = length - count := by
      rw [List.length_drop, hlength]
    rw [← htake, ← hvalue] at hpage
    dsimp only at run
    rcases Action.bind_eq_ok.1 run with ⟨_, u, hpiece, run⟩ | ⟨e, hpiece, rfl⟩
    · rw [storedCount_cons_ok haddress hpiece] at hspared ⊢
      dsimp only at hspared ⊢
      have hcopies := writePiece_copies h hpiece
      have hfirst : ¬ s.Shares pl file (.of id address) := by
        have hat := hspared 0 (by omega)
        rwa [Nat.add_zero, ← hvalue, ← Place.of_eq_containing] at hat
      rcases hsteady.writePiece hfits h hpage hpiece (fun _ => hfirst) with
        ⟨⟨e, he⟩, -⟩ | ⟨-, hafter⟩
      · cases he
      · have hrest := ih (length - count) (by omega) hafter (h.moves hcopies) (by omega) hdrop run
          fun i hi hshares => by
            have hbefore := shares_before_moves (m := ⟨s, none⟩) h hcopies (fun _ hl => hl) hshares
            rw [Nat.add_assoc] at hbefore
            exact hspared (count + i) (by omega) hbefore
        rw [hvalue] at hrest
        simp only [List.take_add, Flat.receives_append, htake]
        exact hrest
    · rw [storedCount_cons_error haddress hpiece, List.take_zero]
      simp only [Flat.receives_nil]
      rcases hsteady.writePiece hfits h hpage hpiece (fun hr => by cases hr) with
        ⟨-, hafter⟩ | ⟨hr, -⟩
      · exact hafter
      · cases hr

/-- A process that reads the whole page is given what it shows. -/
theorem Steady.readPage {bytes : Bytes} (hsteady : s.Steady pl file c)
    (hfits : file.readBytes ≤ pageSize) (h : Coherent ⟨s, none⟩)
    (run : readUser pl.space pl.address pageSize s = .ok (.ok bytes, t)) :
    bytes.length = pageSize ∧ ∀ i < pageSize, bytes[i]? = some (c i) ∨
      file.readBytes ≤ i ∧ bytes[i]? = some 0 := by
  obtain ⟨p, hp, -⟩ := hsteady.retains.registered
  have haligned : pl.key % pageSize = 0 := (h.linked.keyed hp).2
  have hpieces : pieces pl.address.value pageSize = [⟨pl.key, pageSize⟩] := by
    have hpart : firstPart pl.key pageSize = pageSize := by
      rw [firstPart, haligned]
      rfl
    rw [Place.value_address, pieces_cons pl.key (by decide), hpart, Nat.sub_self, pieces_zero]
  unfold readUser at run
  obtain ⟨_, -, run⟩ | ⟨e, -, he, -⟩ := Action.ofResult_bind_eq_ok.1 run
  · rw [hpieces] at run
    obtain ⟨address, haddress, ⟨e, he, -⟩ | ⟨read, q, u, hpiece, hrest, hr⟩⟩ := readPieces_cons run
    · cases he
    · obtain rfl : address = pl.address :=
        Address.ext (@value_of_add_sub pl.address _ _ (Nat.le_refl _) haddress)
      obtain ⟨hmoves, hread⟩ := readPiece_moves h hpiece
      have hself := Place.of_address haligned
      rw [hself] at hmoves hread
      have hsteady := hsteady.claimed hfits h hmoves
      have ht := h.moves hmoves
      cases hrest
      have hall : bytes = read := by
        cases hr
        exact List.append_nil _
      rw [hall]
      obtain ⟨fr, ⟨f, hf, ho⟩, rfl⟩ := hread read rfl
      obtain ⟨q, hq, hres⟩ := ht.linked.owner_page hf ho
      have hlen := ht.length_frame hf
      have hoffset : pl.address.pageOffset = 0 := haligned
      have hread : (t.pool.bytesAt fr.address).slice pl.address.pageOffset pageSize =
          t.frameBytes f := by
        rw [frameBytes_of_get? hf, hoffset, Bytes.slice, List.drop_zero,
          List.take_of_length_le (Nat.le_of_eq hlen)]
      rw [hread]
      have hlength : (t.frameBytes f).length = pageSize := by rw [frameBytes_of_get? hf, hlen]
      refine ⟨hlength, fun i hi => ?_⟩
      have hbyte := List.getElem?_eq_getElem (by omega : i < (t.frameBytes f).length)
      rcases hsteady.retains.resident hq hres hbyte with hsame | ⟨hbehind, hzero⟩
      · exact .inl (by rw [hbyte, hsame])
      · exact .inr ⟨hbehind, by rw [hbyte, hzero]⟩
  · cases he

end Machine
end Pager
