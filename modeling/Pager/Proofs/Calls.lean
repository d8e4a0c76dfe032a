import Pager.Proofs.Soiling
import Pager.Proofs.Touching

/-!
What files are asked to take. The bytes of a file change by the writes that are asked for
and by nothing else, so a file holds what it held before with the later calls laid over
it. Besides the callers that hold a handle only a page of the file asks, and only one that
is resident and was stored to.
-/
namespace Pager

namespace WriteCall

/-- How many bytes the file took. -/
def taken (call : WriteCall) : Nat :=
  match call.outcome with
  | .ok count => count
  | .error _ => 0

/-- What a file holds after the call. -/
def apply (call : WriteCall) (file : Nat) (data : Bytes) : Bytes :=
  if call.handle.file = file then data.overlay call.offset (call.bytes.take call.taken) else data

theorem apply_of_ne {call : WriteCall} {file : Nat} (h : call.handle.file ≠ file) (data : Bytes) :
    call.apply file data = data := if_neg h

theorem apply_of_taken {call : WriteCall} (h : call.taken = 0) (file : Nat) (data : Bytes) :
    call.apply file data = data := by
  unfold apply
  split
  · rw [h, List.take_zero]
    refine List.ext_getElem? fun i => ?_
    by_cases hi : i < data.length
    · rw [Bytes.getElem?_overlay _ _ _ hi, if_neg (by simp)]
    · rw [List.getElem?_eq_none (by rw [Bytes.length_overlay]; omega),
        List.getElem?_eq_none (by omega)]
  · rfl

@[simp] theorem length_apply (call : WriteCall) (file : Nat) (data : Bytes) :
    (call.apply file data).length = data.length := by
  unfold apply
  split
  · exact Bytes.length_overlay ..
  · rfl

/-- Bytes that are taken in full are in the file afterwards. -/
theorem getElem?_apply_full {handle : Handle} {offset count i : Nat} {bytes data : Bytes}
    (hi : i < count) (hbytes : i < bytes.length) (hdata : offset + i < data.length) :
    ((WriteCall.mk handle offset (bytes.take count) (.ok count)).apply handle.file data)[offset + i]? =
      bytes[i]? := by
  have hin : offset ≤ offset + i ∧
      offset + i < offset + ((bytes.take count).take count).length := by
    rw [List.length_take, List.length_take]
    omega
  rw [apply, if_pos rfl]
  refine (Bytes.getElem?_overlay _ _ _ hdata).trans ((if_pos hin).trans ?_)
  rw [Nat.add_sub_cancel_left]
  refine (List.getElem?_take ..).trans ((if_pos hi).trans ?_)
  rw [List.getElem?_take, if_pos hi]

end WriteCall

namespace FileStore

variable {store after final : FileStore} {handle : Handle} {calls later : List WriteCall}

/-- The bytes of a file. -/
def data? (store : FileStore) (file : Nat) : Option Bytes := store.files[file]?.map File.data

/-- What a file holds after the calls, of which the latest comes first. -/
def replay (calls : List WriteCall) (file : Nat) (data : Bytes) : Bytes :=
  calls.foldr (fun call data => call.apply file data) data

/-- Exactly these calls were made, and nothing else changed what the files hold. -/
structure Logs (store : FileStore) (calls : List WriteCall) (after : FileStore) : Prop where
  made : after.calls = calls ++ store.calls
  data : ∀ file, after.data? file = (store.data? file).map (replay calls file)

/-- All calls that were made since `past` are such. -/
def Since (past : List WriteCall) (such : WriteCall → Prop) (store : FileStore) : Prop :=
  ∀ calls, store.calls = calls ++ past → ∀ call ∈ calls, such call

theorem Since.of_later {past calls : List WriteCall} {such : WriteCall → Prop}
    (h : after.Since past such) (hcalls : store.calls = calls ++ past) :
    after.Since store.calls such := by
  intro later hlater call hmem
  refine h (later ++ calls) ?_ call (List.mem_append_left _ hmem)
  rw [hlater, hcalls, List.append_assoc]

theorem data?_of_file? {file : File} (h : store.file? handle = some file) :
    store.data? handle.file = some file.data := by
  rw [data?, show store.files[handle.file]? = some file from h, Option.map_some]

theorem exists_file_of_data? {data : Bytes} (h : store.data? handle.file = some data) :
    ∃ file, store.file? handle = some file ∧ file.data = data := Option.map_eq_some_iff.1 h

theorem data?_update (store : FileStore) (file other : Nat) (f : File → File) :
    (store.update file f).data? other =
      if file = other then store.files[other]?.map (fun found => (f found).data)
      else store.data? other := by
  unfold update data?
  rw [List.getElem?_modify]
  split
  · exact Option.map_map ..
  · rw [id_map']

theorem Logs.of_data (hcalls : after.calls = store.calls)
    (hdata : ∀ file, after.data? file = store.data? file) : store.Logs [] after where
  made := hcalls
  data file := (hdata file).trans Option.map_id'.symm

/-- Writes make no files, and take none away. -/
theorem Logs.isSome_data? (h : store.Logs calls after) (file : Nat) :
    (after.data? file).isSome = (store.data? file).isSome := by
  rw [h.data, Option.isSome_map]

theorem Logs.refl : store.Logs [] store := .of_data rfl fun _ => rfl

theorem Logs.trans (h : store.Logs calls after) (h' : after.Logs later final) :
    store.Logs (later ++ calls) final where
  made := by rw [h'.made, h.made, List.append_assoc]
  data file := by
    rw [h'.data, h.data, Option.map_map]
    refine congrArg (fun f => Option.map f (store.data? file)) (funext fun data => ?_)
    exact List.foldr_append.symm

/-- A change of a file that leaves its bytes. -/
theorem Logs.of_update (file : Nat) {f : File → File}
    (hf : ∀ found, store.files[file]? = some found → (f found).data = found.data) :
    store.Logs [] (store.update file f) := by
  refine .of_data rfl fun other => ?_
  rw [data?_update]
  split
  · rename_i he
    subst he
    unfold data?
    cases hfile : store.files[file]? with
    | none => rfl
    | some found => exact congrArg some (hf found hfile)
  · rfl

theorem Logs.of_readAt {count offset : Nat} {r : Except StoreError Bytes}
    (h : readAt handle count offset store = .ok (r, after)) : store.Logs [] after := by
  rcases readAt_cases h with ⟨-, -, rfl⟩ | ⟨file, hfile, -, rfl⟩
  · exact .refl
  · refine .of_update handle.file fun found hfound => ?_
    rw [show store.files[handle.file]? = some file from hfile] at hfound
    cases hfound
    exact File.data_readAt ..

theorem Logs.of_fetches (h : store.Fetches after) : store.Logs [] after := by
  induction h with
  | refl => exact .refl
  | tail _ hfetch ih =>
    obtain ⟨handle, count, offset, r, hread⟩ := hfetch
    exact ih.trans (.of_readAt hread)

theorem data_writeAt (file : File) (bytes : Bytes) (offset : Nat) (handle : Handle) :
    (file.writeAt bytes offset).1.data =
      (WriteCall.mk handle offset bytes (file.writeAt bytes offset).2).apply handle.file
        file.data := by
  unfold File.writeAt
  dsimp only
  split
  · exact (WriteCall.apply_of_taken rfl _ _).symm
  · rw [WriteCall.apply, if_pos rfl]
    rfl

/-- A request to write is one call, unless there is no such file. -/
theorem Logs.of_writeAt {bytes : Bytes} {offset : Nat} {r : Except StoreError Nat}
    (h : writeAt handle bytes offset store = .ok (r, after)) :
    store.Logs [⟨handle, offset, bytes, r⟩] after ∨
      store.file? handle = none ∧ r = .error .device ∧ after = store := by
  rcases writeAt_cases h with hnone | ⟨file, hfile, rfl, rfl⟩
  · exact .inr hnone
  · have hdata := data_writeAt file bytes offset handle
    generalize file.writeAt bytes offset = out at hdata
    refine .inl ⟨rfl, fun other => (data?_update store handle.file other _).trans ?_⟩
    split
    · rename_i he
      subst he
      rw [data?_of_file? hfile, show store.files[handle.file]? = some file from hfile,
        Option.map_some, Option.map_some, hdata]
      rfl
    · rename_i hne
      have hsame : replay [⟨handle, offset, bytes, out.2⟩] other = id :=
        funext fun data => WriteCall.apply_of_ne hne data
      rw [hsame, Option.map_id_apply]

/-- A caller that asks for a handle gets a new one, and it leads to a file, or nothing. -/
theorem hold_cases {r : Except StoreError Handle} (run : hold handle store = .ok (r, after)) :
    (∃ e, r = .error e ∧ after = store) ∨ ∃ file, store.file? handle = some file ∧
      r = .ok (store.opening handle) ∧ after = { store with
        nextSerial := store.nextSerial + 1
        held := store.opening handle :: store.held } := by
  unfold hold at run
  rcases Action.bind_eq_ok.1 run with ⟨opened, between, hopen, hlast⟩ | ⟨e, hopen, rfl⟩
  · rcases reopen_cases hopen with ⟨e, he, -⟩ | ⟨file, hfile, hr, rfl⟩
    · cases he
    · cases hr
      cases hlast
      exact .inr ⟨file, hfile, rfl, rfl⟩
  · rcases reopen_cases hopen with ⟨-, -, rfl⟩ | ⟨-, -, hr, -⟩
    · exact .inl ⟨e, rfl, rfl⟩
    · cases hr

theorem Logs.of_hold {r : Except StoreError Handle} (h : hold handle store = .ok (r, after)) :
    store.Logs [] after := by
  rcases hold_cases h with ⟨-, -, rfl⟩ | ⟨-, -, -, rfl⟩
  · exact .refl
  · exact .of_data rfl fun _ => rfl

/-- What callers do to files goes through the handles they hold. -/
theorem Handled.logs (h : store.Handled after) :
    store.Logs [] after ∨ ∃ call, store.Logs [call] after ∧ call.handle ∈ store.held := by
  cases h with
  | opened run => exact .inl (.of_hold run)
  | closed handle => exact .inl (.of_data rfl fun _ => rfl)
  | wrote mem run =>
    rcases Logs.of_writeAt run with hlogs | ⟨-, -, rfl⟩
    · exact .inr ⟨_, hlogs, mem⟩
    · exact .inl .refl
  | switched file switches => exact .inl (.of_update file fun _ _ => rfl)

theorem writeAt_handles {bytes : Bytes} {offset : Nat} {r : Except StoreError Nat}
    (h : writeAt handle bytes offset store = .ok (r, after)) :
    after.nextSerial = store.nextSerial ∧ after.held = store.held := by
  rcases writeAt_cases h with ⟨-, -, rfl⟩ | ⟨file, -, -, rfl⟩ <;> exact ⟨rfl, rfl⟩

/-- A handle that a caller gets leads to a file. -/
theorem Handled.filed (h : store.Handled after) (hmem : handle ∈ after.held) :
    handle ∈ store.held ∨ (store.data? handle.file).isSome = true := by
  cases h with
  | @opened source _ _ run =>
    rcases hold_cases run with ⟨-, -, rfl⟩ | ⟨file, hfile, -, rfl⟩
    · exact .inl hmem
    · have hdata := data?_of_file? hfile
      rcases List.mem_cons.1 hmem with rfl | hmem
      · exact .inr (Option.isSome_of_eq_some hdata)
      · exact .inl hmem
  | closed => exact .inl (List.mem_of_mem_erase hmem)
  | wrote _ run => exact .inl ((writeAt_handles run).2 ▸ hmem)
  | switched => exact .inl hmem

theorem readAt_handles {count offset : Nat} {r : Except StoreError Bytes}
    (h : readAt handle count offset store = .ok (r, after)) :
    after.nextSerial = store.nextSerial ∧ after.held = store.held := by
  rcases readAt_cases h with ⟨-, -, rfl⟩ | ⟨file, -, -, rfl⟩ <;> exact ⟨rfl, rfl⟩

theorem Request.handles (h : store.Request after) :
    after.nextSerial = store.nextSerial ∧ after.held = store.held := by
  rcases h with ⟨_, _, _, _, hread⟩ | ⟨_, _, _, _, hwrite⟩
  · exact readAt_handles hread
  · exact writeAt_handles hwrite

/-- Requests open no handles. -/
theorem Traffic.handles (h : store.Traffic after) :
    after.nextSerial = store.nextSerial ∧ after.held = store.held := by
  induction h with
  | refl => exact ⟨rfl, rfl⟩
  | tail _ hrequest ih =>
    obtain ⟨hserial, hheld⟩ := hrequest.handles
    exact ⟨hserial.trans ih.1, hheld.trans ih.2⟩

/-- A handle that comes to be held is a new one. -/
theorem Handled.handles (h : store.Handled after) : store.nextSerial ≤ after.nextSerial ∧
    ∀ handle ∈ after.held, handle ∈ store.held ∨
      handle.serial = store.nextSerial ∧ store.nextSerial < after.nextSerial := by
  cases h with
  | opened run =>
    rcases hold_cases run with ⟨e, -, rfl⟩ | ⟨-, -, -, rfl⟩
    · exact ⟨Nat.le_refl _, fun _ => .inl⟩
    · refine ⟨Nat.le_succ _, fun handle hmem => ?_⟩
      rcases List.mem_cons.1 hmem with rfl | hmem
      · exact .inr ⟨rfl, Nat.lt_succ_self _⟩
      · exact .inl hmem
  | closed handle => exact ⟨Nat.le_refl _, fun _ hmem => .inl (List.mem_of_mem_erase hmem)⟩
  | wrote _ run =>
    obtain ⟨hserial, hheld⟩ := writeAt_handles run
    rw [hserial, hheld]
    exact ⟨Nat.le_refl _, fun _ => .inl⟩
  | switched => exact ⟨Nat.le_refl _, fun _ => .inl⟩

/-- No caller holds a handle twice, as long as handles are opened under numbers of their own. -/
theorem Handled.nodup (h : store.Handled after) (hheld : store.held.Nodup)
    (hdated : ∀ handle ∈ store.held, handle.serial < store.nextSerial) : after.held.Nodup := by
  cases h with
  | opened run =>
    rcases hold_cases run with ⟨e, -, rfl⟩ | ⟨-, -, -, rfl⟩
    · exact hheld
    · exact List.nodup_cons.2 ⟨fun hmem => Nat.lt_irrefl _ (hdated _ hmem), hheld⟩
  | closed handle => exact hheld.erase handle
  | wrote _ run =>
    rw [(writeAt_handles run).2]
    exact hheld
  | switched => exact hheld

end FileStore

/-- The page at a place is resident and was stored to, and its file is asked to take it. -/
def Machine.Sends (s : Machine) (pl : Place) (call : WriteCall) : Prop :=
  ∃ file bytes, s.Soiled pl file bytes ∧ call.handle = file.file ∧ call.offset = file.offset ∧
    call.bytes = bytes.take file.readBytes

namespace Coherent

variable {s : Machine} {held : Option FrameId} {pl : Place} {p : Page} {f : FrameId} {fr : Frame}
  {sp : Space} {file : FileBacking} {m n : Moment} {l : Label}

theorem soiled_of_owner (h : Coherent ⟨s, held⟩) (hf : s.frames.get? f = some fr)
    (ho : fr.owner = some pl.owner) (hs : s.spaces.get? pl.space = some sp)
    (hp : sp.pages.pages.get? pl.key = some p) (hkind : p.kind = .fileBacked file)
    (hdirty : sp.directory.has pl.address .dirty = true) :
    s.Soiled pl file (s.pool.bytesAt fr.address) := by
  obtain ⟨e, he, hd⟩ := Directory.has_iff.1 hdirty
  exact ⟨p, f, e, pageAt_eq hs hp, hkind, h.resident_of_owner hf ho hs hp,
    (entryAt_of_get? hs _).trans he, hd, Machine.frameBytes_of_get? hf⟩

/-- Moving a page out asks for one write if the page is a dirty one of a file, and for none
otherwise. -/
theorem logs_out (h : Coherent ⟨s, held⟩) {t : Transfer} {r : Except PagerError Unit}
    (hf : s.frames.get? f = some fr) (ho : fr.owner = some pl.owner)
    (hs : s.spaces.get? pl.space = some sp) (hp : sp.pages.pages.get? pl.key = some p)
    (hout : Transfer.evict (sp.directory.has pl.address .dirty)
      ⟨p, s.pool.bytesAt fr.address, s.swap, s.files, []⟩ = .ok (r, t)) :
    s.files.Logs [] t.files ∨
      ∃ call, s.files.Logs [call] t.files ∧ ∃ pl, s.Sends pl call := by
  cases hk : p.kind with
  | fileBacked file =>
    cases hd : sp.directory.has pl.address .dirty with
    | true =>
      have hsoiled := h.soiled_of_owner hf ho hs hp hk hd
      rw [hd, Transfer.evict_dirty hk] at hout
      obtain ⟨-, q, hwrite, -⟩ := Transfer.writeBack_spec hout
      rcases FileStore.Logs.of_writeAt hwrite with hlogs | ⟨-, -, hsame⟩
      · exact .inr ⟨_, hlogs, pl, file, _, hsoiled, rfl, rfl, rfl⟩
      · rw [hsame]
        exact .inl .refl
    | false =>
      unfold Transfer.evict at hout
      rw [Action.get_bind, hk, hd] at hout
      cases hout
      exact .inl .refl
  | unpopulated | anonymous =>
    cases Transfer.evict_eq_ok hout with
    | filed hkind => rw [hk] at hkind; cases hkind
    | _ => exact .inl .refl

/-- As long as nobody else works on the files a move asks for one write at the most, and it is a
page that was stored to that asks. -/
theorem logs_inside (h : Coherent m) (hmove : Move l m n) (hl : l ≠ .outside) :
    m.machine.files.Logs [] n.machine.files ∨ ∃ call, m.machine.files.Logs [call] n.machine.files ∧
      ∃ pl, m.machine.Sends pl call := by
  cases hmove with
  | request hasks =>
    cases hasks with
    | reads hfetches => exact .inl (.of_fetches hfetches)
    | writesBack hf ho hs hp hkind hdirty hwrote =>
      have hsoiled := h.soiled_of_owner hf ho hs hp hkind hdirty
      rcases FileStore.Logs.of_writeAt hwrote with hlogs | ⟨-, -, rfl⟩
      · exact .inr ⟨_, hlogs, _, _, _, hsoiled, rfl, rfl, rfl⟩
      · exact .inl .refl
  | handles => exact .inl (.of_data rfl fun _ => rfl)
  | outside => exact absurd rfl hl
  | evict hf ho hs hp hout | spare hf ho hs hp hout => exact h.logs_out hf ho hs hp hout
  | populate hf _ _ _ hfill | lose hf _ _ _ hfill =>
    have hlen := h.length_frame hf
    rcases Transfer.populate_eq_ok h.swap hlen hfill with ⟨-, ht⟩ | ⟨e, he, -⟩
    · exact .inl (.of_fetches (ht.spec h.swap hlen).2.2.2.2.1)
    · cases he
  | _ => exact .inl .refl

/-- A move asks for one write at the most, and it is a page that was stored to, or somebody who
holds a handle, that asks. -/
theorem logs (h : Coherent m) (hmove : Move l m n) :
    m.machine.files.Logs [] n.machine.files ∨ ∃ call, m.machine.files.Logs [call] n.machine.files ∧
      ((∃ pl, m.machine.Sends pl call) ∨ call.handle ∈ m.machine.files.held) := by
  by_cases hl : l = .outside
  · subst hl
    cases hmove with
    | outside hhandled =>
      rcases hhandled.logs with hlogs | ⟨call, hlogs, hheld⟩
      · exact .inl hlogs
      · exact .inr ⟨call, hlogs, .inr hheld⟩
  · rcases h.logs_inside hmove hl with hlogs | ⟨call, hlogs, hsends⟩
    · exact .inl hlogs
    · exact .inr ⟨call, hlogs, .inl hsends⟩

/-- No call is forgotten. -/
theorem calls_grow {kinds : Label → Prop} (h : Coherent m) (hmoves : Moves kinds m n) :
    ∃ calls, n.machine.files.calls = calls ++ m.machine.files.calls := by
  refine h.preserves (P := fun o => ∃ calls, o.machine.files.calls =
    calls ++ m.machine.files.calls) hmoves ?_ ⟨[], rfl⟩
  intro l o o' _ ho hm hmove
  obtain ⟨calls, hcalls⟩ := hm
  rcases ho.logs hmove with hlogs | ⟨call, hlogs, -⟩
  · exact ⟨calls, hlogs.made.trans hcalls⟩
  · exact ⟨call :: calls, by rw [hlogs.made, hcalls]; rfl⟩

/-- What holds of all calls held of all the earlier ones. -/
theorem since_before {past : List WriteCall} {such : WriteCall → Prop} (h : Coherent m)
    (hmove : Move l m n) (hn : n.machine.files.Since past such) :
    m.machine.files.Since past such := by
  intro calls hcalls call hmem
  rcases h.logs hmove with hlogs | ⟨last, hlogs, -⟩
  · exact hn calls (hlogs.made.trans hcalls) call hmem
  · refine hn (last :: calls) ?_ call (List.mem_cons_of_mem _ hmem)
    rw [hlogs.made, hcalls]
    rfl

theorem since_before_moves {kinds : Label → Prop} {past : List WriteCall}
    {such : WriteCall → Prop} (h : Coherent m) (hmoves : Moves kinds m n)
    (hn : n.machine.files.Since past such) : m.machine.files.Since past such :=
  h.preserves (P := fun o => o.machine.files.Since past such → m.machine.files.Since past such)
    hmoves (fun _ ho hm hmove hlast => hm (ho.since_before hmove hlast)) id hn

/-- A dirty page of a file that is moved out was taken in full. -/
theorem logs_evict {bytes : Bytes} (h : Coherent m) (hmove : Move (.evict pl) m n)
    (hsoiled : m.machine.Soiled pl file bytes) :
    m.machine.files.Logs
      [⟨file.file, file.offset, bytes.take file.readBytes, .ok file.readBytes⟩]
      n.machine.files := by
  cases hmove with
  | @evict s _ g fr sp p t hf ho hs hp hout =>
    obtain ⟨q, f', e, hq, hk, hres, he, hd, rfl⟩ := hsoiled
    have hsame : Pager.pageAt s.spaces pl = some q := hq
    rw [pageAt_eq hs hp] at hsame
    cases hsame
    have hframe := h.resident_of_owner hf ho hs hp
    rw [hres] at hframe
    cases hframe
    have hdirty : sp.directory.has pl.address .dirty = true :=
      Directory.has_iff.2 ⟨e, (entryAt_of_get? hs _).symm.trans he, hd⟩
    rw [hdirty, Transfer.evict_dirty hk] at hout
    obtain ⟨-, q, hwrite, hfull⟩ := Transfer.writeBack_spec hout
    rw [FileStore.shortfall_eq_none.1 (Transfer.ending_eq_ok.1 hfull.symm),
      ← Machine.frameBytes_of_get? hf] at hwrite
    rcases FileStore.Logs.of_writeAt hwrite with hlogs | ⟨-, hr, -⟩
    · exact hlogs
    · cases hr

/-- A handle that comes to be held is a new one. -/
theorem handles (h : Coherent m) (hmove : Move l m n) :
    m.machine.files.nextSerial ≤ n.machine.files.nextSerial ∧
      ∀ handle ∈ n.machine.files.held, handle ∈ m.machine.files.held ∨
        handle.serial = m.machine.files.nextSerial ∧
          m.machine.files.nextSerial < n.machine.files.nextSerial := by
  have hmoved := hmove
  cases hmove with
  | handles => exact ⟨Nat.le_succ _, fun _ => .inl⟩
  | outside hhandled => exact hhandled.handles
  | _ =>
    obtain ⟨hserial, hheld⟩ := (h.traffic hmoved (by simp) (by simp)).handles
    rw [hserial, hheld]
    exact ⟨Nat.le_refl _, fun _ => .inl⟩

end Coherent
end Pager
