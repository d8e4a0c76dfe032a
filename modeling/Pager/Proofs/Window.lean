import Pager.Proofs.Backing

/-!
A part of a file that is mapped into a space. As long as nobody else writes to the file,
each byte of it is the one that was stored last or the one that was mapped: in the frame
of its page if that is resident, and in the file unless the page is dirty. Page by page
this survives whatever a move does to frames, devices and other pages.
-/
namespace Pager

open Function

/-- A part of a file that was mapped, with what the file held and had been asked to take then. -/
structure Window where
  space : SpaceId
  start : Nat
  length : Nat
  mapping : MappingId
  /-- The handle that the mapping opened. -/
  file : Handle
  offset : Nat
  before : Bytes
  past : List WriteCall

namespace Window

variable {w : Window} {k first : Nat} {p q : Page}

/-- How many bytes of the mapping lie in the file. -/
def count (w : Window) : Nat := min w.length (w.before.length - w.offset)

def pages (w : Window) : Nat := (w.length + pageSize - 1) / pageSize

def place (w : Window) (k : Nat) : Place := ⟨w.space, w.start + k * pageSize⟩

def slice (w : Window) (k : Nat) : LoadSlice := .part w.file w.offset w.count k

/-- Page `k` before it is populated. -/
def unpopulated (w : Window) (k : Nat) : Unpopulated where
  target := .fileBacked
  init := some .fileSlice
  slice := w.slice k
  mapping := some w.mapping

/-- Page `k` once it was populated. -/
def backing (w : Window) (k : Nat) : FileBacking where
  file := w.file
  offset := (w.slice k).offset
  readBytes := (w.slice k).readBytes
  mapping := some w.mapping

/-- The page is page `k` of the mapping. -/
def Backs (w : Window) (k : Nat) (p : Page) : Prop :=
  p.kind = .unpopulated (w.unpopulated k) ∨ p.kind = .fileBacked (w.backing k)

/-- Byte `i` of the mapping when it was made; past the end of the file there are zeros. -/
def original (w : Window) (i : Nat) : UInt8 :=
  if i < w.count then w.before.getD (w.offset + i) 0 else 0

/-- Byte `i` of the mapping after what was stored, address by address. -/
def byte (w : Window) (stored : Nat → Option UInt8) (i : Nat) : UInt8 :=
  (stored (w.start + i)).getD (w.original i)

/-- What was stored, after more bytes were stored from `start` on. -/
def storing (stored : Nat → Option UInt8) (start : Nat) (bytes : Bytes) (x : Nat) : Option UInt8 :=
  if start ≤ x then bytes[x - start]?.or (stored x) else stored x

/-- Pages of files that refer to the handle of the mapping are its own, and nobody else has
the handle. -/
structure Owned (w : Window) (first : Nat) (s : Machine) : Prop where
  past : ∃ calls, s.files.calls = calls ++ w.past
  opened : w.file.serial < s.files.nextSerial
  unheld : w.file ∉ s.files.held
  own : ∀ {pl p}, pageAt s.spaces pl = some p → p.type = .fileBacked →
    p.handle = some w.file → ∃ k, first ≤ k ∧ k < w.pages ∧ pl = w.place k ∧ w.Backs k p

/-- From page `first` on the mapping is there. What is not in its frames is in the file, and the
pages before `first` are so altogether. -/
structure Holds (w : Window) (stored : Nat → Option UInt8) (first : Nat) (s : Machine)
    (data : Bytes) : Prop where
  registered : ∀ k, first ≤ k → k < w.pages →
    ∃ p, pageAt s.spaces (w.place k) = some p ∧ w.Backs k p
  file : s.files.data? w.file.file = some data
  length : data.length = w.before.length
  outside : ∀ i, i < w.offset ∨ w.offset + w.count ≤ i → data[i]? = w.before[i]?
  resident : ∀ {k p f i}, first ≤ k → k < w.pages → pageAt s.spaces (w.place k) = some p →
    p.frame = some f → i < pageSize →
      k * pageSize + i < w.count ∨ stored (w.start + (k * pageSize + i)) = none →
        (s.frameBytes f)[i]? = some (w.byte stored (k * pageSize + i))
  saved : ∀ {k i}, k < w.pages → i < pageSize → k * pageSize + i < w.count →
    (first ≤ k → ¬ s.Dirty (w.place k)) →
      data[w.offset + (k * pageSize + i)]? = some (w.byte stored (k * pageSize + i))

/-- Nobody has written to the file since but the mapping itself. -/
def Alone (w : Window) (s : Machine) : Prop :=
  s.files.Since w.past fun call =>
    call.handle.file = w.file.file → call.taken ≠ 0 → call.handle = w.file

/-- No page is added that has the handle of the mapping. -/
def Foreign (w : Window) : Label → Prop
  | .register _ page => page.type = .fileBacked → page.handle ≠ some w.file
  | _ => True

/-- Besides, no page of the mapping from `first` on is taken away or stored to. -/
def Spares (w : Window) (first : Nat) : Label → Prop
  | .unseat pl p | .remove pl p =>
    p.mapping = some w.mapping → ∀ k, first ≤ k → k < w.pages → pl ≠ w.place k
  | .store pl _ _ => ∀ k, first ≤ k → k < w.pages → pl ≠ w.place k
  | l => w.Foreign l

namespace Backs

theorem type (h : w.Backs k p) : p.type = .fileBacked := by
  rcases h with h | h
  · rw [Page.type, h]
    rfl
  · rw [Page.type, h]

theorem handle (h : w.Backs k p) : p.handle = some w.file := by
  rcases h with h | h
  · rw [Page.handle, h]
    rfl
  · rw [Page.handle, h]
    rfl

theorem mapping (h : w.Backs k p) : p.mapping = some w.mapping := by
  rcases h with h | h
  · rw [Page.mapping, h]
    rfl
  · rw [Page.mapping, h]
    rfl

theorem ages (h : w.Backs k p) (hages : p.Ages q) : w.Backs k q := by
  rcases hages.slice h.type with hkind | ⟨u, hu, hkind⟩
  · unfold Backs
    rw [hkind]
    exact h
  · rcases h with h | h
    · cases hu.symm.trans h
      exact .inr (Except.ok.inj hkind).symm
    · cases hu.symm.trans h

/-- A page that lies in a frame was populated. -/
theorem kind_of_initialized (h : w.Backs k p) (hinit : p.isInitialized = true) :
    p.kind = .fileBacked (w.backing k) := by
  rcases h with h | h
  · rw [Page.isInitialized, h] at hinit
    cases hinit
  · exact h

end Backs

theorem Spares.foreign {l : Label} (h : w.Spares first l) : w.Foreign l := by
  cases l <;> first | exact h | trivial

end Window

theorem Page.Ages.handle {p q : Page} (h : p.Ages q) (hp : p.type = .fileBacked) :
    q.handle = p.handle := by
  rcases h.slice hp with hkind | ⟨u, hu, hkind⟩
  · rw [Page.handle, Page.handle, hkind]
  · rcases Transfer.populated_kind hkind with ⟨htarget, -⟩ | ⟨-, file, hfile, hfilled⟩
    · rw [Page.type, hu] at hp
      cases htarget.symm.trans hp
    · rw [Page.handle, Page.handle, hu, hfilled]
      exact hfile.symm

namespace Window

variable {w : Window} {first k : Nat} {m n : Moment} {l : Label} {p : Page} {f : FrameId}
  {stored : Nat → Option UInt8} {data : Bytes}

theorem Owned.move (howned : w.Owned first m.machine) (h : Coherent m) (hmove : Move l m n)
    (hl : w.Foreign l) : w.Owned first n.machine where
  past := by
    obtain ⟨calls, hcalls⟩ := howned.past
    rcases h.logs hmove with hlogs | ⟨call, hlogs, -⟩
    · exact ⟨calls, hlogs.made.trans hcalls⟩
    · exact ⟨call :: calls, by rw [hlogs.made, hcalls]; rfl⟩
  opened := Nat.lt_of_lt_of_le howned.opened (h.handles hmove).1
  unheld := by
    intro hheld
    rcases (h.handles hmove).2 _ hheld with hold | ⟨hnew, -⟩
    · exact howned.unheld hold
    · exact Nat.ne_of_lt howned.opened hnew
  own := by
    intro pl q hq htype hhandle
    rcases h.page_before hmove hq with rfl | ⟨p, hp, hages⟩
    · exact absurd hhandle (hl htype)
    · rw [hages.type] at htype
      rw [hages.handle htype] at hhandle
      obtain ⟨k, hfirst, hlt, hpl, hbacks⟩ := howned.own hp htype hhandle
      exact ⟨k, hfirst, hlt, hpl, hbacks.ages hages⟩

/-- A dirty page of the mapping is one that was stored to. -/
theorem Backs.soiled (hbacks : w.Backs k p) (h : Coherent m)
    (hp : pageAt m.machine.spaces (w.place k) = some p) (hd : m.machine.Dirty (w.place k)) :
    ∃ f, p.frame = some f ∧
      m.machine.Soiled (w.place k) (w.backing k) (m.machine.frameBytes f) := by
  obtain ⟨q, f, hq, hf⟩ := h.resident_of_dirty hd
  rw [hp] at hq
  cases hq
  obtain ⟨e, he, hdirty⟩ := hd
  have hkind := hbacks.kind_of_initialized (h.linked.ready hp hf).1
  exact ⟨f, hf, p, f, e, hp, hkind, hf, he, hdirty, rfl⟩

/-- Which byte of the file lies where in a page. -/
theorem lt_readBytes_iff {i : Nat} (hi : i < pageSize) :
    i < (w.backing k).readBytes ↔ k * pageSize + i < w.count := by
  show i < min (w.count - k * pageSize) pageSize ↔ _
  omega

/-- A call that a page of the mapping makes writes nothing but what the mapping holds. -/
theorem Holds.replay_sent (hholds : w.Holds stored first m.machine data) (h : Coherent m)
    (howned : w.Owned first m.machine) {call : WriteCall} {pl : Place}
    (hsends : m.machine.Sends pl call) (hhandle : call.handle = w.file) (i : Nat) :
    (call.apply w.file.file data)[i]? = data[i]? ∨ w.offset ≤ i ∧ i < w.offset + w.count ∧
      (call.apply w.file.file data)[i]? = some (w.byte stored (i - w.offset)) := by
  obtain ⟨file, bytes, ⟨p, f, e, hp, hk, hf, he, hd, rfl⟩, hfile, hoffset, hbytes⟩ := hsends
  have htype : p.type = .fileBacked := by rw [Page.type, hk]
  have hown : p.handle = some w.file := by
    rw [Page.handle, hk]
    exact congrArg some (hfile.symm.trans hhandle)
  obtain ⟨k, hfirst, hlt, rfl, hbacks⟩ := howned.own hp htype hown
  have hkind := hbacks.kind_of_initialized (h.linked.ready hp hf).1
  cases hk.symm.trans hkind
  unfold WriteCall.apply
  rw [if_pos (by rw [hhandle])]
  by_cases hi : i < data.length
  · rw [Bytes.getElem?_overlay _ _ _ hi]
    by_cases hin : call.offset ≤ i ∧ i < call.offset + (call.bytes.take call.taken).length
    · rw [if_pos hin]
      obtain ⟨j, rfl⟩ := Nat.exists_eq_add_of_le hin.1
      have hoffset : call.offset = w.offset + k * pageSize := hoffset
      have hj : j < (w.backing k).readBytes ∧ j < call.taken := by
        have hlength := hin.2
        rw [hbytes, List.length_take, List.length_take] at hlength
        omega
      have hpage : j < pageSize := Nat.lt_of_lt_of_le hj.1 (Nat.min_le_right ..)
      have hcount := (lt_readBytes_iff hpage).1 hj.1
      have hbyte := hholds.resident hfirst hlt hp hf hpage (.inl hcount)
      refine .inr ⟨by omega, by omega, ?_⟩
      rw [Nat.add_sub_cancel_left, hbytes, List.getElem?_take, if_pos hj.2, List.getElem?_take,
        if_pos hj.1, hbyte, hoffset, Nat.add_assoc, Nat.add_sub_cancel_left]
    · rw [if_neg hin]
      exact .inl rfl
  · refine .inl ?_
    rw [List.getElem?_eq_none (by rw [Bytes.length_overlay]; omega),
      List.getElem?_eq_none (by omega)]

/-- No byte of the file has changed to anything but what the mapping holds. -/
def Yields (w : Window) (stored : Nat → Option UInt8) (data after : Bytes) : Prop :=
  after.length = data.length ∧ ∀ i, after[i]? = data[i]? ∨
    w.offset ≤ i ∧ i < w.offset + w.count ∧ after[i]? = some (w.byte stored (i - w.offset))

theorem Yields.refl : w.Yields stored data data := ⟨rfl, fun _ => .inl rfl⟩

/-- As long as the mapping alone writes to its file, the file gets what the mapping holds. -/
theorem Holds.yields (hholds : w.Holds stored first m.machine data) (h : Coherent m)
    (howned : w.Owned first m.machine) (hmove : Move l m n) (halone : w.Alone n.machine) :
    ∃ after, n.machine.files.data? w.file.file = some after ∧ w.Yields stored data after := by
  rcases h.logs hmove with hlogs | ⟨call, hlogs, horigin⟩
  · refine ⟨data, ?_, .refl⟩
    rw [hlogs.data, hholds.file]
    rfl
  · refine ⟨call.apply w.file.file data, ?_, WriteCall.length_apply .., fun i => ?_⟩
    · rw [hlogs.data, hholds.file]
      rfl
    · by_cases hfile : call.handle.file = w.file.file
      · by_cases htaken : call.taken = 0
        · exact .inl (by rw [WriteCall.apply_of_taken htaken])
        · obtain ⟨calls, hcalls⟩ := howned.past
          have hhandle := halone (call :: calls) (by rw [hlogs.made, hcalls]; rfl) call
            (List.mem_cons_self ..) hfile htaken
          rcases horigin with ⟨pl, hsends⟩ | hheld
          · exact hholds.replay_sent h howned hsends hhandle i
          · rw [hhandle] at hheld
            exact absurd hheld howned.unheld
      · exact .inl (by rw [WriteCall.apply_of_ne hfile])

/-- A page of the mapping is loaded from its slice of the file. -/
theorem Backs.fills (hbacks : w.Backs k p) : (w.backing k).Fills p := by
  rcases hbacks with hk | hk
  · refine ⟨by rw [Page.backing?, hk]; rfl, fun u hu => ?_⟩
    cases hk.symm.trans hu
    rfl
  · refine ⟨by rw [Page.backing?, hk], fun u hu => ?_⟩
    cases hk.symm.trans hu

/-- A page of the mapping that is populated shows what the mapping holds. -/
theorem Holds.populate {q : Page} {i : Nat} (hholds : w.Holds stored first m.machine data)
    (h : Coherent m) (hmove : Move (.populate (w.place k)) m n) (hfirst : first ≤ k)
    (hlt : k < w.pages) (hq : pageAt n.machine.spaces (w.place k) = some q)
    (hf : q.frame = some f) (hi : i < pageSize)
    (hshown : k * pageSize + i < w.count ∨ stored (w.start + (k * pageSize + i)) = none) :
    (n.machine.frameBytes f)[i]? = some (w.byte stored (k * pageSize + i)) := by
  obtain ⟨p, g, frame, t, hp, habs, hlen, ht, hq', hframe⟩ := h.populated hmove
  obtain ⟨p', hp', hbacks⟩ := hholds.registered k hfirst hlt
  cases hp.symm.trans hp'
  cases hq.symm.trans hq'
  cases hf
  obtain ⟨file, hfile, hslice, hfilled⟩ := hbacks.fills.loaded ht
  have hdata : file.data = data := by
    have hsame := FileStore.data?_of_file? hfile
    rw [show m.machine.files.data? (w.backing k).file.file = some data from hholds.file] at hsame
    exact (Option.some.inj hsame).symm
  have hclean := h.not_dirty_of_absent hp habs
  rw [hframe, hfilled, hdata]
  rw [hdata] at hslice
  by_cases hcount : k * pageSize + i < w.count
  · have hread := (lt_readBytes_iff hi).2 hcount
    rw [List.getElem?_append_left (by omega), Bytes.getElem?_slice, if_pos hread,
      ← hholds.saved hlt hi hcount fun _ => hclean]
    exact congrArg (data[·]?) (Nat.add_assoc ..)
  · have hread := mt (lt_readBytes_iff hi).1 hcount
    rw [List.getElem?_append_right (by omega), hslice, Bytes.zeros, List.getElem?_replicate,
      if_pos (by omega), byte, hshown.resolve_left hcount, Option.getD_none, original,
      if_neg hcount]

/-- A page of the mapping that was written in full is in its file afterwards. -/
theorem Holds.written {files : FileStore} {i : Nat} (hholds : w.Holds stored first m.machine data)
    (hfirst : first ≤ k) (hlt : k < w.pages)
    (hp : pageAt m.machine.spaces (w.place k) = some p) (hf : p.frame = some f)
    (hlogs : m.machine.files.Logs [⟨w.file, (w.backing k).offset,
      (m.machine.frameBytes f).take (w.backing k).readBytes, .ok (w.backing k).readBytes⟩] files)
    (hi : i < pageSize) (hcount : k * pageSize + i < w.count) :
    ∀ after, files.data? w.file.file = some after →
      after[w.offset + (k * pageSize + i)]? = some (w.byte stored (k * pageSize + i)) := by
  intro after hafter
  have hbyte := hholds.resident hfirst hlt hp hf hi (.inl hcount)
  have hread := (lt_readBytes_iff hi).2 hcount
  have hlength : i < (m.machine.frameBytes f).length := by
    by_contra hcon
    rw [List.getElem?_eq_none (Nat.not_lt.1 hcon)] at hbyte
    cases hbyte
  have hat : w.offset + (k * pageSize + i) = (w.backing k).offset + i := (Nat.add_assoc ..).symm
  have hdata : w.offset + (k * pageSize + i) < data.length := by
    have hmin : w.count ≤ w.before.length - w.offset := Nat.min_le_right ..
    rw [hholds.length]
    omega
  rw [hlogs.data, hholds.file] at hafter
  cases hafter
  rw [hat] at hdata ⊢
  rw [← hbyte]
  exact WriteCall.getElem?_apply_full hread hlength hdata

/-- What the mapping holds survives every move that spares its pages, if the file gets nothing
else. -/
theorem Holds.of_yields {after : Bytes} (hholds : w.Holds stored first m.machine data)
    (h : Coherent m) (hmove : Move l m n) (hl : w.Spares first l)
    (hfile : n.machine.files.data? w.file.file = some after) (hyields : w.Yields stored data after) :
    w.Holds stored first n.machine after := by
  obtain ⟨hlength, hbytes⟩ := hyields
  have hkept : ∀ {i : Nat}, data[w.offset + i]? = some (w.byte stored i) →
      after[w.offset + i]? = some (w.byte stored i) := by
    intro i hi
    rcases hbytes (w.offset + i) with hsame | ⟨-, -, hnew⟩
    · rw [hsame, hi]
    · rw [hnew, Nat.add_sub_cancel_left]
  refine ⟨?_, hfile, hlength.trans hholds.length, ?_, ?_, ?_⟩
  · intro k hfirst hlt
    obtain ⟨p, hp, hbacks⟩ := hholds.registered k hfirst hlt
    rcases h.page_after hmove hp with rfl | ⟨q, hq, hages⟩
    · exact absurd rfl (hl hbacks.mapping k hfirst hlt)
    · exact ⟨q, hq, hbacks.ages hages⟩
  · intro i hi
    rcases hbytes i with hsame | ⟨hlow, hhigh, -⟩
    · rw [hsame, hholds.outside i hi]
    · omega
  · intro k q f i hfirst hlt hq hf hi hshown
    rcases h.resident_before hmove hq hf with (rfl | rfl) | hp
    · exact hholds.populate h hmove hfirst hlt hq hf hi hshown
    · obtain ⟨p, hp, hbacks⟩ := hholds.registered k hfirst hlt
      cases hmove with
      | seat _ hs hp' _ hkind =>
        rw [Coherent.pageAt_eq hs hp'] at hp
        cases hp
        rcases hbacks with hk | hk <;> cases hkind.symm.trans hk
    · have hsame : n.machine.frameBytes f = m.machine.frameBytes f := by
        refine h.frameBytes_kept hmove hp hf ?_
        rintro start bytes rfl
        exact hl k hfirst hlt rfl
      rw [hsame, hholds.resident hfirst hlt hp hf hi hshown]
  · intro k i hlt hi hcount hclean
    by_cases hd : first ≤ k ∧ m.machine.Dirty (w.place k)
    · obtain ⟨p, hp, hbacks⟩ := hholds.registered k hd.1 hlt
      obtain ⟨f, hf, hsoiled⟩ := hbacks.soiled h hp hd.2
      by_cases hevict : l = .evict (w.place k)
      · subst hevict
        have hlogs := h.logs_evict hmove hsoiled
        exact hholds.written hd.1 hlt hp hf hlogs hi hcount after hfile
      · have hunseat : l ≠ .unseat (w.place k) p := by
          rintro rfl
          exact hl hbacks.mapping k hd.1 hlt rfl
        obtain ⟨e, he, hdirty⟩ := hd.2
        exact absurd (h.dirty_kept hmove hp hf hevict hunseat he hdirty) (hclean hd.1)
    · exact hkept (hholds.saved hlt hi hcount fun hfirst hdirty => hd ⟨hfirst, hdirty⟩)

theorem Holds.move (hholds : w.Holds stored first m.machine data) (h : Coherent m)
    (howned : w.Owned first m.machine) (hmove : Move l m n) (hl : w.Spares first l)
    (halone : w.Alone n.machine) : ∃ after, w.Holds stored first n.machine after := by
  obtain ⟨after, hfile, hyields⟩ := hholds.yields h howned hmove halone
  exact ⟨after, hholds.of_yields h hmove hl hfile hyields⟩

/-- A page that is in the file altogether is not needed any more. -/
theorem Holds.next {s : Machine} (hholds : w.Holds stored first s data)
    (hsaved : ∀ i, first < w.pages → i < pageSize → first * pageSize + i < w.count →
      data[w.offset + (first * pageSize + i)]? = some (w.byte stored (first * pageSize + i))) :
    w.Holds stored (first + 1) s data where
  registered k hfirst := hholds.registered k (Nat.le_of_succ_le hfirst)
  file := hholds.file
  length := hholds.length
  outside := hholds.outside
  resident hfirst := hholds.resident (Nat.le_of_succ_le hfirst)
  saved := by
    intro k i hlt hi hcount hclean
    by_cases hself : k = first
    · subst hself
      exact hsaved i hlt hi hcount
    · exact hholds.saved hlt hi hcount fun hfirst =>
        hclean (Nat.lt_of_le_of_ne hfirst (Ne.symm hself))

theorem storing_elsewhere {start x : Nat} {bytes : Bytes}
    (hx : x < start ∨ start + bytes.length ≤ x) : storing stored start bytes x = stored x := by
  unfold storing
  split
  · rw [List.getElem?_eq_none (by omega), Option.none_or]
  · rfl

theorem storing_at {start i : Nat} {bytes : Bytes} (hi : i < bytes.length) :
    storing stored start bytes (start + i) = bytes[i]? := by
  rw [storing, if_pos (Nat.le_add_right ..), Nat.add_sub_cancel_left,
    List.getElem?_eq_getElem hi, Option.some_or]

theorem storing_nil {start : Nat} : storing stored start [] = stored :=
  funext fun x => storing_elsewhere (by simp; omega)

theorem storing_append {start : Nat} {bytes others : Bytes} :
    storing (storing stored start bytes) (start + bytes.length) others =
      storing stored start (bytes ++ others) := by
  funext x
  by_cases hlow : x < start
  · rw [storing_elsewhere (by omega), storing_elsewhere (by omega), storing_elsewhere (by omega)]
  · obtain ⟨i, rfl⟩ := Nat.exists_eq_add_of_le (Nat.not_lt.1 hlow)
    by_cases hi : i < bytes.length
    · rw [storing_elsewhere (by omega), storing_at hi,
        storing_at (by rw [List.length_append]; omega), List.getElem?_append_left hi]
    · have hlen := Nat.not_lt.1 hi
      have hrest : start + i - (start + bytes.length) = i - bytes.length := by omega
      rw [storing, if_pos (by omega), storing_elsewhere (by omega), storing, if_pos (by omega),
        Nat.add_sub_cancel_left, List.getElem?_append_right hlen, hrest]

theorem byte_congr {other : Nat → Option UInt8} {i : Nat}
    (h : other (w.start + i) = stored (w.start + i)) : w.byte other i = w.byte stored i := by
  rw [byte, byte, h]

theorem place_inj {j : Nat} (h : w.place j = w.place k) : j = k := by
  have hkey : w.start + j * pageSize = w.start + k * pageSize := congrArg Place.key h
  exact Nat.eq_of_mul_eq_mul_right (by decide) (Nat.add_left_cancel hkey)

/-- Only what is stored in the mapping counts. -/
theorem Holds.congr {other : Nat → Option UInt8} {s : Machine}
    (hholds : w.Holds stored first s data)
    (hsame : ∀ i < w.pages * pageSize, other (w.start + i) = stored (w.start + i)) :
    w.Holds other first s data where
  registered := hholds.registered
  file := hholds.file
  length := hholds.length
  outside := hholds.outside
  resident := by
    intro k p f i hfirst hlt hp hf hi hshown
    have hin : k * pageSize + i < w.pages * pageSize := by
      have hle := Nat.mul_le_mul_right pageSize hlt
      rw [Nat.succ_mul] at hle
      omega
    rw [hsame _ hin] at hshown
    rw [byte_congr (hsame _ hin), hholds.resident hfirst hlt hp hf hi hshown]
  saved := by
    intro k i hlt hi hcount hclean
    have hin : k * pageSize + i < w.pages * pageSize := by
      have hle := Nat.mul_le_mul_right pageSize hlt
      rw [Nat.succ_mul] at hle
      omega
    rw [byte_congr (hsame _ hin), hholds.saved hlt hi hcount hclean]

/-- Bytes that are stored in a dirty page of the mapping are what it holds from then on. -/
theorem Holds.store {start : Nat} {bytes : Bytes} (hholds : w.Holds stored first m.machine data)
    (h : Coherent m) (hmove : Move (.store (w.place k) start bytes) m n) (hfirst : first ≤ k)
    (hlt : k < w.pages) (hd : m.machine.Dirty (w.place k))
    (hfits : start + bytes.length ≤ pageSize) :
    w.Holds (storing stored (w.start + k * pageSize + start) bytes) first n.machine data := by
  have hmoved := hmove
  cases hmove with
  | @store s _ f fr _ _ pool hf ho hw =>
    have helsewhere : ∀ {j i : Nat}, j ≠ k → i < pageSize →
        storing stored (w.start + k * pageSize + start) bytes (w.start + (j * pageSize + i)) =
          stored (w.start + (j * pageSize + i)) := by
      intro j i hne hi
      refine storing_elsewhere ?_
      rcases Nat.lt_or_gt_of_ne hne with hlow | hhigh
      · have hle := Nat.mul_le_mul_right pageSize hlow
        rw [Nat.succ_mul] at hle
        omega
      · have hle := Nat.mul_le_mul_right pageSize hhigh
        rw [Nat.succ_mul] at hle
        omega
    refine ⟨hholds.registered, hholds.file, hholds.length, hholds.outside, ?_, ?_⟩
    · intro j p g i hj hltj hp hg hi hshown
      by_cases hself : j = k
      · subst hself
        obtain ⟨sp, hs, hget⟩ := exists_space_of_pageAt hp
        have hres := h.resident_of_owner hf ho hs hget
        cases hres.symm.trans hg
        have hbytes : (s.frameBytes f).length = pageSize := by
          rw [Machine.frameBytes_of_get? hf, h.length_frame hf]
        have hframe : Machine.frameBytes { s with pool } f =
            (s.frameBytes f).overlay start bytes := by
          rw [h.frameBytes_write hf hw, update_self]
        show (Machine.frameBytes { s with pool } f)[i]? = _
        rw [hframe, Bytes.getElem?_overlay _ _ _ (by omega)]
        by_cases hin : start ≤ i ∧ i < start + bytes.length
        · have hat : w.start + (j * pageSize + i) =
              w.start + j * pageSize + start + (i - start) := by omega
          rw [if_pos hin, byte, hat, storing_at (by omega),
            List.getElem?_eq_getElem (by omega), Option.getD_some]
        · have hsame : storing stored (w.start + j * pageSize + start) bytes
              (w.start + (j * pageSize + i)) = stored (w.start + (j * pageSize + i)) :=
            storing_elsewhere (by omega)
          rw [hsame] at hshown
          rw [if_neg hin, byte_congr hsame, ← hholds.resident hj hltj hp hres hi hshown]
      · rw [helsewhere hself hi] at hshown
        rw [byte_congr (helsewhere hself hi), ← hholds.resident hj hltj hp hg hi hshown]
        refine congrArg (·[i]?) (h.frameBytes_kept hmoved hp hg ?_)
        intro start' bytes' he
        exact hself (place_inj (Label.store.inj he).1.symm)
    · intro j i hltj hi hcount hclean
      by_cases hself : j = k
      · subst hself
        exact absurd hd (hclean hfirst)
      · rw [byte_congr (helsewhere hself hi), hholds.saved hltj hi hcount hclean]

/-- The page at a place is one of a file and refers to the handle of the mapping. -/
def Covers (w : Window) (s : Machine) (pl : Place) : Prop :=
  ∃ p, pageAt s.spaces pl = some p ∧ p.type = .fileBacked ∧ p.handle = some w.file

/-- Nothing was stored to a page of the mapping, and its file was not asked to take anything. -/
structure Untouched (w : Window) (s : Machine) : Prop where
  clean : ∀ {pl file bytes}, s.Soiled pl file bytes → file.file ≠ w.file
  silent : s.files.Since w.past fun call => call.handle ≠ w.file

theorem covers_before {pl : Place} (h : Coherent m) (hmove : Move l m n) (hl : w.Foreign l)
    (hn : w.Covers n.machine pl) : w.Covers m.machine pl := by
  obtain ⟨q, hq, htype, hhandle⟩ := hn
  rcases h.page_before hmove hq with rfl | ⟨p, hp, hages⟩
  · exact absurd hhandle (hl htype)
  · rw [hages.type] at htype
    rw [hages.handle htype] at hhandle
    exact ⟨p, hp, htype, hhandle⟩

theorem Untouched.move (huntouched : w.Untouched m.machine) (h : Coherent m)
    (howned : w.Owned first m.machine) (hmove : Move l m n)
    (hl : ∀ pl, l = .soil pl → ¬ w.Covers n.machine pl) : w.Untouched n.machine where
  clean := by
    intro pl file bytes hsoiled
    by_cases hsoil : l = .soil pl
    · obtain ⟨q, _, _, hq, hk, -⟩ := hsoiled
      intro hfile
      refine hl pl hsoil ⟨q, hq, ?_, ?_⟩
      · rw [Page.type, hk]
      · rw [Page.handle, hk]
        exact congrArg some hfile
    · obtain ⟨bytes', hbefore⟩ := h.soiled_before hmove hsoiled hsoil
      exact huntouched.clean hbefore
  silent := by
    intro calls hcalls call hmem
    obtain ⟨old, hold⟩ := howned.past
    rcases h.logs hmove with hlogs | ⟨last, hlogs, horigin⟩
    · rw [hlogs.made] at hcalls
      exact huntouched.silent calls hcalls call hmem
    · rw [hlogs.made, hold, ← List.append_assoc] at hcalls
      obtain rfl := List.append_cancel_right hcalls
      rcases List.mem_cons.1 hmem with rfl | hmem
      · rcases horigin with ⟨pl, file, bytes, hsoiled, hfile, -⟩ | hheld
        · rw [hfile]
          exact huntouched.clean hsoiled
        · exact fun he => howned.unheld (he ▸ hheld)
      · exact huntouched.silent old hold call hmem

end Window
end Pager
