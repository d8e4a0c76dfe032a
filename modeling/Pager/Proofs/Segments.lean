import Pager.Proofs.Fidelity
import Pager.Proofs.Simulation

/-!
A segment is a stretch of a file that was loaded into a space. Each of its pages is told which
bytes of the file belong on it, and waits until somebody needs it. Wherever the page is moved
then, and whichever spaces it is passed on to, it waits or holds its bytes of the file with
zeros behind them, until something is stored to it.
-/
namespace Pager

open Machine

namespace FileStore

variable {store after : FileStore} {calls : List WriteCall}

/-- Requests are logged. -/
theorem Traffic.logs (h : store.Traffic after) : ∃ calls, store.Logs calls after := by
  induction h with
  | refl => exact ⟨[], .refl⟩
  | tail _ hrequest ih =>
    obtain ⟨calls, hcalls⟩ := ih
    rcases hrequest with ⟨_, _, _, _, hread⟩ | ⟨_, _, _, _, hwrite⟩
    · exact ⟨_, hcalls.trans (.of_readAt hread)⟩
    · rcases Logs.of_writeAt hwrite with hlogs | ⟨-, -, rfl⟩
      · exact ⟨_, hcalls.trans hlogs⟩
      · exact ⟨calls, hcalls⟩

theorem length_replay (calls : List WriteCall) (file : Nat) (data : Bytes) :
    (replay calls file data).length = data.length := by
  induction calls with
  | nil => rfl
  | cons call rest ih => exact (WriteCall.length_apply ..).trans ih

/-- Calls that took nothing of a file leave what it holds. -/
theorem replay_of_untaken {file : Nat} (data : Bytes)
    (h : ∀ call ∈ calls, call.handle.file = file → call.taken = 0) :
    replay calls file data = data := by
  induction calls with
  | nil => rfl
  | cons call rest ih =>
    have hrest := ih fun other hother => h other (List.mem_cons_of_mem _ hother)
    show call.apply file (replay rest file data) = data
    rw [hrest]
    by_cases hfile : call.handle.file = file
    · exact WriteCall.apply_of_taken (h call (List.mem_cons_self ..) hfile) file data
    · exact WriteCall.apply_of_ne hfile data

end FileStore

theorem Coherent.logs_moves {m n : Moment} {kinds : Label → Prop} (h : Coherent m)
    (hmoves : Moves kinds m n) : ∃ calls, m.machine.files.Logs calls n.machine.files := by
  refine h.preserves (P := fun o => ∃ calls, m.machine.files.Logs calls o.machine.files) hmoves ?_
    ⟨[], .refl⟩
  intro l o o' _ ho hm hmove
  obtain ⟨calls, hcalls⟩ := hm
  rcases ho.logs hmove with hlogs | ⟨call, hlogs, -⟩
  · exact ⟨_, hcalls.trans hlogs⟩
  · exact ⟨_, hcalls.trans hlogs⟩

/-- A stretch of a file that was loaded into memory, with what the file held and what files had
been asked to take then. -/
structure Segment where
  start : Nat
  file : Handle
  offset : Nat
  readBytes : Nat
  zeroBytes : Nat
  data : Bytes
  past : List WriteCall

namespace Segment

def total (g : Segment) : Nat := g.readBytes + g.zeroBytes

/-- The page is one of those that the segment has in a space. -/
def Covers (g : Segment) (id : SpaceId) (pl : Place) : Prop :=
  pl.space = id ∧ g.start ≤ pl.key ∧ pl.key < g.start + g.total ∧ pl.key % pageSize = 0

/-- How many bytes of the file belong on the page at an address. -/
def count (g : Segment) (key : Nat) : Nat := min (g.readBytes - (key - g.start)) pageSize

/-- What the page at an address is told to read. -/
def slice (g : Segment) (key : Nat) : LoadSlice where
  file := some g.file
  offset := g.offset + (key - g.start)
  readBytes := g.count key
  zeroBytes := pageSize - g.count key

/-- The page at an address before it is loaded. -/
def unpopulated (g : Segment) (key : Nat) : Unpopulated where
  target := .anonymous
  init := some .fileSlice
  slice := g.slice key

/-- What the file has of the page at an address. -/
def part (g : Segment) (key : Nat) : Bytes :=
  g.data.slice (g.offset + (key - g.start)) (g.count key)

/-- The file has all of what belongs on the page at an address. -/
def Whole (g : Segment) (key : Nat) : Prop :=
  g.count key = 0 ∨ g.offset + (key - g.start) + g.count key ≤ g.data.length

/-- What the page at an address is loaded with. -/
def image (g : Segment) (key : Nat) : Bytes := g.part key ++ .zeros (pageSize - g.count key)

/-- What can be seen of the page at an address: it waits to be loaded, or it was, which takes a
file that is long enough. Then it holds what it was loaded with, unless something was stored. -/
def Shows (g : Segment) (stored : Prop) (key : Nat) (c : Option Cell) : Prop :=
  c = some (.waiting (g.unpopulated key)) ∨
    g.Whole key ∧ ∃ bytes, c = some (.holding bytes) ∧ (stored ∨ bytes = g.image key)

/-- The segment is in a space. -/
def Stands (g : Segment) (stored : Prop) (id : SpaceId) (memory : Flat) : Prop :=
  ∀ pl, g.Covers id pl → g.Shows stored pl.key (memory pl)

/-- Nobody has written to the file since the segment was loaded. -/
def Unwritten (g : Segment) (files : FileStore) : Prop :=
  files.Since g.past fun call => call.handle.file = g.file.file → call.taken = 0

/-- The file is as long as when the segment was loaded, and holds what it held then unless it was
written to. -/
structure Keeps (g : Segment) (files : FileStore) : Prop where
  data : ∃ data, files.data? g.file.file = some data ∧ data.length = g.data.length ∧
    (g.Unwritten files → data = g.data)
  past : ∃ calls, files.calls = calls ++ g.past

/-- The operation took some of the segment out of a space. -/
def Removes (g : Segment) (id : SpaceId) : Op → Except Failure Value → Prop
  | .onSpace other address .remove, .ok _ => g.Covers id (.containing other address)
  | .onSpace other _ .teardown, .ok _ => other = id
  | _, _ => False

/-- The operation stores to the segment in a space. -/
def Changes (g : Segment) (s : Machine) (id : SpaceId) : Op → Prop
  | .onSpace other address (.copyTo bytes) =>
    ∃ i < Op.storedCount s (.onSpace other address (.copyTo bytes)),
      g.Covers id (.containing other (address + i))
  | _ => False

/-- After an operation a space has the segment from a space that had it before: from itself, if the
operation neither took the segment out of it nor, unless that is allowed, stored to it there, or
from the space that it was copied from. -/
inductive Hands (g : Segment) (stored : Prop) (s : Machine) (id : SpaceId) :
    Op → Except Failure Value → SpaceId → Prop
  | stays {op : Op} {r : Except Failure Value} (kept : ¬ g.Removes id op r)
      (spared : stored ∨ ¬ g.Changes s id op) : Hands g stored s id op r id
  | copied {address : Nat} {refuses : Option PagerError} {child : SpaceId} :
      Hands g stored s id (.onSpace id address (.duplicate refuses)) (.ok (.space child)) child

/-- Operations lead from one machine to another, and a space of the other has the segment from a
space of the first. -/
inductive Passes (g : Segment) (stored : Prop) :
    SpaceId → Machine → List Op → SpaceId → Machine → Prop
  | here {id : SpaceId} {s : Machine} : Passes g stored id s [] id s
  | on {id next heir : SpaceId} {s t u : Machine} {op : Op} {ops : List Op}
      {r : Except Failure Value} (first : step op s = .ok (r, t))
      (hands : g.Hands stored s id op r next) (later : Passes g stored next t ops heir u) :
      Passes g stored id s (op :: ops) heir u

section Files

variable {g : Segment} {store after : FileStore} {calls : List WriteCall}

theorem Unwritten.before (hafter : g.Unwritten after) (hlogs : store.Logs calls after) :
    g.Unwritten store := by
  intro older holder call hmem
  refine hafter (calls ++ older) ?_ call (List.mem_append_right _ hmem)
  rw [hlogs.made, holder, List.append_assoc]

/-- Writing changes neither the length of a file nor, if nothing is taken, what it holds. -/
theorem Keeps.logs (hkeeps : g.Keeps store) (hlogs : store.Logs calls after) : g.Keeps after where
  data := by
    obtain ⟨data, hdata, hlength, hsame⟩ := hkeeps.data
    obtain ⟨older, holder⟩ := hkeeps.past
    refine ⟨FileStore.replay calls g.file.file data, ?_,
      (FileStore.length_replay ..).trans hlength, fun hafter => ?_⟩
    · rw [hlogs.data, hdata, Option.map_some]
    · rw [← hsame (hafter.before hlogs)]
      refine FileStore.replay_of_untaken _ fun call hmem => ?_
      refine hafter (calls ++ older) ?_ call (List.mem_append_left _ hmem)
      rw [hlogs.made, holder, List.append_assoc]
  past := by
    obtain ⟨older, holder⟩ := hkeeps.past
    exact ⟨calls ++ older, by rw [hlogs.made, holder, List.append_assoc]⟩

theorem whole_iff {data : Bytes} (hlength : data.length = g.data.length) (key : Nat) :
    (data.slice (g.offset + (key - g.start)) (g.count key)).length = g.count key ↔ g.Whole key := by
  rw [Whole, Bytes.slice, List.length_take, List.length_drop, hlength]
  omega

/-- What a page of the segment is filled with. -/
theorem Keeps.fills {key : Nat} {bytes : Bytes} (hkeeps : g.Keeps store)
    (h : (g.unpopulated key).Fills store bytes) :
    g.Whole key ∧ (g.Unwritten store → bytes = g.image key) := by
  obtain ⟨handle, file, hhandle, hfile, hfilled, hbytes⟩ := h
  cases hhandle
  obtain ⟨data, hdata, hlength, hsame⟩ := hkeeps.data
  have hfound : file.data = data :=
    Option.some.inj ((FileStore.data?_of_file? hfile).symm.trans hdata)
  refine ⟨(whole_iff (hfound ▸ hlength) key).1 hfilled, fun hunwritten => ?_⟩
  rw [hfound, hsame hunwritten] at hbytes
  exact hbytes

end Files

section Memory

variable {g : Segment} {stored : Prop} {id other : SpaceId} {key start : Nat} {c d : Option Cell}
  {m n : Ideal} {among : Place → Prop} {cells : Flat}

theorem Shows.ne_none (h : g.Shows stored key c) : c ≠ none := by
  rcases h with rfl | ⟨-, bytes, rfl, -⟩ <;> simp

/-- A page that is populated is loaded. -/
theorem Shows.settles {before after : FileStore} (h : g.Shows stored key c)
    (hsettles : Settles before after c d) (hkeeps : g.Keeps before) (hafter : g.Unwritten after) :
    g.Shows stored key d := by
  cases hsettles with
  | still => exact h
  | filled hearlier hfills hlater =>
    rcases h with hwaits | ⟨-, bytes, hholds, -⟩
    · cases hwaits
      obtain ⟨calls, hcalls⟩ := hearlier.logs
      obtain ⟨more, hmore⟩ := hlater.logs
      obtain ⟨hwhole, hbytes⟩ := (hkeeps.logs hcalls).fills hfills
      exact .inr ⟨hwhole, _, rfl, .inr (hbytes (hafter.before hmore))⟩
    · cases hholds

theorem Stands.touches (h : g.Stands stored id m.memory) (hkeeps : g.Keeps m.files)
    (hafter : g.Unwritten n.files) (htouches : m.Touches among n) :
    g.Stands stored id n.memory :=
  fun pl hpl => (h pl hpl).settles (htouches.cells pl) hkeeps hafter

theorem Stands.gains (h : g.Stands stored id m.memory) (hgains : m.Gains cells n) :
    g.Stands stored id n.memory := by
  intro pl hpl
  obtain ⟨c, hc⟩ := Option.ne_none_iff_exists'.1 (h pl hpl).ne_none
  rw [hgains.2]
  dsimp only
  rw [hc, Option.some_or, ← hc]
  exact h pl hpl

/-- Storing to other pages leaves the segment as it is. -/
theorem Stands.stores {bytes : Bytes} (h : g.Stands stored id m.memory) (hkeeps : g.Keeps m.files)
    (hafter : g.Unwritten n.files) (hstores : m.Stores among other start bytes n)
    (hspared : stored ∨ ∀ i < bytes.length, ¬ g.Covers id (.containing other (start + i))) :
    g.Stands stored id n.memory := by
  obtain ⟨populated, htouches, -, hn⟩ := hstores
  have hbefore : g.Stands stored id populated :=
    h.touches (n := ⟨populated, n.files⟩) hkeeps hafter htouches
  intro pl hpl
  rw [hn, Flat.stored]
  rcases hbefore pl hpl with hwaits | ⟨hwhole, held, hholds, hheld⟩
  · rw [hwaits]
    exact .inl rfl
  · rw [hholds]
    refine .inr ⟨hwhole, _, rfl, ?_⟩
    rcases hspared with hallowed | hspared
    · exact .inl hallowed
    · have helsewhere : ∀ i < bytes.length, Place.containing other (start + i) ≠ pl := by
        rintro i hi rfl
        exact hspared i hi hpl
      have hsame := Cell.mapBytes_of_same (Flat.receives_elsewhere helsewhere) (.holding held)
      have hbytes : held.mapIdx (pl.receives other start bytes) = held := Cell.holding.inj hsame
      rw [hbytes]
      exact hheld

/-- No operation but a store changes what the segment shows, unless it takes some of it away. -/
theorem Stands.performs {a : VirtualAddress} {op : SpaceOp} {r : Except Failure Value}
    (h : g.Stands stored id m.memory) (hkeeps : g.Keeps m.files) (hafter : g.Unwritten n.files)
    (hstays : ¬ g.Removes id (.onSpace other a.value op) r) (hop : ∀ bytes, op ≠ .copyTo bytes)
    (hperforms : m.Performs other a n op r) : g.Stands stored id n.memory := by
  have hsame : n.memory = m.memory → g.Stands stored id n.memory := by
    intro hmemory
    rw [hmemory]
    exact h
  cases op with
  | registerAnonymous | register | registerSegment =>
    cases r with
    | ok => exact h.gains hperforms
    | error => exact hsame hperforms
  | claim | pin => exact h.touches hkeeps hafter hperforms
  | copyFrom =>
    cases r with
    | error => exact h.touches hkeeps hafter hperforms
    | ok value =>
      cases value with
      | bytes => exact h.touches hkeeps hafter hperforms.1
      | _ => exact h.touches hkeeps hafter hperforms
  | copyTo bytes => exact absurd rfl (hop bytes)
  | fault =>
    obtain ⟨grown, rfl | ⟨hfiles, hgains⟩, htouches⟩ := hperforms
    · exact h.touches hkeeps hafter htouches
    · exact (h.gains hgains).touches (hfiles ▸ hkeeps) hafter htouches
  | remove =>
    cases r with
    | error => exact hsame hperforms
    | ok =>
      have hmemory : n.memory = Function.update m.memory (.containing other a.value) none :=
        hperforms
      intro pl hpl
      rw [hmemory, Function.update_of_ne]
      · exact h pl hpl
      · rintro rfl
        exact hstays hpl
  | teardown =>
    cases r with
    | error => exact hsame hperforms
    | ok =>
      have hmemory : n.memory = fun pl => if pl.space = other then none else m.memory pl :=
        hperforms
      intro pl hpl
      rw [hmemory]
      dsimp only
      rw [if_neg]
      · exact h pl hpl
      · intro hspace
        exact hstays (hspace.symm.trans hpl.1)
  | duplicate =>
    cases r with
    | error => exact hsame hperforms
    | ok value =>
      cases value with
      | space child =>
        obtain ⟨hvacant, hmemory⟩ := hperforms
        intro pl hpl
        rw [hmemory]
        dsimp only
        rw [if_neg]
        · exact h pl hpl
        · intro hspace
          exact (h pl hpl).ne_none (hvacant pl hspace)
      | _ => exact hsame hperforms
  | _ => exact hsame hperforms

/-- A copy of a space has the segment as the space has it. -/
theorem Stands.copied {child : SpaceId} (h : g.Stands stored id m.memory)
    (hmemory : n.memory = fun pl =>
      if pl.space = child then m.memory ⟨id, pl.key⟩ else m.memory pl) :
    g.Stands stored child n.memory := by
  intro pl hpl
  rw [hmemory]
  dsimp only
  rw [if_pos hpl.1]
  exact h ⟨id, pl.key⟩ ⟨rfl, hpl.2⟩

end Memory

section Runs

variable {g : Segment} {stored : Prop} {id heir : SpaceId} {s t u : Machine} {ops : List Op}
  {op : Op} {r : Except Failure Value}

/-- Where a copy to user memory stores its bytes. -/
theorem stores_of_copyTo (h : Coherent ⟨s, none⟩) (hw : s.Willing) {other : SpaceId} {address : Nat}
    {bytes : Bytes} (run : step (.onSpace other address (.copyTo bytes)) s = .ok (r, t)) :
    s.ideal.Stores (Ideal.Meets other address bytes.length) other address
      (bytes.take (Op.storedCount s (.onSpace other address (.copyTo bytes)))) t.ideal := by
  rcases copyTo_cases run with ⟨hcount, rfl⟩ | ⟨hcount, q, hq⟩
  · rw [hcount, List.take_zero]
    exact Ideal.Touches.refl.stores_nil
  · rw [hcount]
    exact (writePieces_stores h hw (Nat.le_refl _) hq).2

/-- An operation leaves what the segment shows, unless it takes some of it away or stores to it. -/
theorem Stands.of_step (hstands : g.Stands stored id s.flat) (h : Coherent ⟨s, none⟩)
    (hw : s.Willing) (hkeeps : g.Keeps s.files) (hafter : g.Unwritten t.files)
    (run : step op s = .ok (r, t)) (hstays : ¬ g.Removes id op r)
    (hspared : stored ∨ ¬ g.Changes s id op) : g.Stands stored id t.flat := by
  have hperforms := step_performs h hw run
  have hsame : t.flat = s.flat → g.Stands stored id t.flat := by
    intro hflat
    rw [hflat]
    exact hstands
  have hbefore : g.Stands stored id s.ideal.memory := hstands
  cases op with
  | onSpace other address op =>
    by_cases hop : ∃ bytes, op = .copyTo bytes
    · obtain ⟨bytes, rfl⟩ := hop
      refine hbefore.stores hkeeps hafter (stores_of_copyTo h hw run) ?_
      refine hspared.imp_right fun hspared i hi hcovers => hspared ⟨i, ?_, hcovers⟩
      rw [List.length_take] at hi
      omega
    · exact hbefore.performs (a := ⟨address⟩) hkeeps hafter hstays (fun bytes he => hop ⟨bytes, he⟩)
        hperforms
  | _ => exact hsame hperforms

theorem Stands.handed {next : SpaceId} (hstands : g.Stands stored id s.flat)
    (h : Coherent ⟨s, none⟩) (hw : s.Willing) (hkeeps : g.Keeps s.files)
    (hafter : g.Unwritten t.files) (run : step op s = .ok (r, t))
    (hhands : g.Hands stored s id op r next) : g.Stands stored next t.flat := by
  cases hhands with
  | stays hstays hspared => exact hstands.of_step h hw hkeeps hafter run hstays hspared
  | copied =>
    obtain ⟨-, hmemory⟩ := step_performs h hw run
    exact Stands.copied (m := s.ideal) (n := t.ideal) hstands hmemory

theorem Passes.run (h : g.Passes stored id s ops heir u) :
    ∃ results, run ops s = .ok (results, u) := by
  induction h with
  | here => exact ⟨[], rfl⟩
  | on hfirst _ _ ih =>
    obtain ⟨results, hrun⟩ := ih
    exact ⟨_, run_cons_eq_ok.2 ⟨_, _, _, hfirst, hrun, rfl⟩⟩

/-- However a segment is passed on, it shows what it was loaded with. -/
theorem Passes.stands (hpasses : g.Passes stored id s ops heir u) (h : Coherent ⟨s, none⟩)
    (hw : s.Willing) (hops : ∀ op ∈ ops, op.Obliging) (hkeeps : g.Keeps s.files)
    (hafter : g.Unwritten u.files) (hstands : g.Stands stored id s.flat) :
    g.Stands stored heir u.flat ∧ g.Keeps u.files ∧ u.Willing := by
  induction hpasses with
  | here => exact ⟨hstands, hkeeps, hw⟩
  | on hfirst hhands hlater ih =>
    have hmoves := step_moves h hfirst
    have ht := h.moves hmoves
    obtain ⟨results, hrest⟩ := hlater.run
    obtain ⟨calls, hcalls⟩ := h.logs_moves hmoves
    obtain ⟨more, hmore⟩ := ht.logs_moves (run_moves ht hrest)
    have hbetween := hafter.before hmore
    exact ih ht (step_willing h hw (hops _ (List.mem_cons_self ..)) hfirst)
      (fun other hother => hops other (List.mem_cons_of_mem _ hother))
      (hkeeps.logs hcalls) hafter
      (hstands.handed h hw hkeeps hbetween hfirst hhands)

end Runs

end Segment
end Pager
