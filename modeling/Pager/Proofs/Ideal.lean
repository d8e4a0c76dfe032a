import Pager.Machine.Operation
import Pager.Proofs.Cells

/-!
The machine as it looks to somebody who knows nothing of frames, slots and
devices: anonymous memory as cells, and the files. Every operation has a plain
meaning here. Claims populate pages that still wait for their initializer, stores
change the bytes they are made to, and all else that happens to a page, however
often it is moved, changes nothing.
-/
namespace Pager

open Function

/-- The place of the page that byte `x` of a space lies on. -/
def Place.containing (id : SpaceId) (x : Nat) : Place := ⟨id, x / pageSize * pageSize⟩

/-- Byte `i` of the page at a place becomes the byte of `source` that goes to its address, if there
is one. -/
def Place.receives (pl : Place) (id : SpaceId) (start : Nat) (source : Bytes) (i : Nat)
    (byte : UInt8) : UInt8 :=
  if Place.containing id (pl.key + i) = pl ∧ start ≤ pl.key + i then
    source[pl.key + i - start]?.getD byte
  else byte

/-- A cell stays, or its initializer runs while the files pass from one state to another. -/
inductive Settles (before after : FileStore) : Option Cell → Option Cell → Prop
  | still {c : Option Cell} : Settles before after c c
  | filled {u : Unpopulated} {bytes : Bytes} {store : FileStore} (earlier : before.Traffic store)
      (fills : u.Fills store bytes) (later : store.Traffic after) :
      Settles before after (some (.waiting u)) (some (.holding bytes))

theorem Settles.trans {first second third : FileStore} {c d e : Option Cell}
    (h : Settles first second c d) (h' : Settles second third d e) (before : first.Traffic second)
    (after : second.Traffic third) : Settles first third c e := by
  cases h with
  | still =>
    cases h' with
    | still => exact .still
    | filled earlier fills later => exact .filled (before.trans earlier) fills later
  | filled earlier fills later =>
    cases h' with
    | still => exact .filled earlier fills (later.trans after)

namespace Cell

/-- The bytes of a populated cell are changed, each by its position. -/
def mapBytes (f : Nat → UInt8 → UInt8) : Cell → Cell
  | .waiting u => .waiting u
  | .holding bytes => .holding (bytes.mapIdx f)

/-- The cell of a page that is being registered. -/
def first (type : PageType) (init : Option Initializer) (slice : LoadSlice) : Option Cell :=
  match type with
  | .anonymous => some (.waiting { target := .anonymous, init, slice })
  | .fileBacked => none

theorem mapBytes_of_same {f : Nat → UInt8 → UInt8} (h : ∀ i byte, f i byte = byte) (c : Cell) :
    c.mapBytes f = c := by
  have hf : f = fun _ byte => byte := funext fun i => funext (h i)
  cases c with
  | waiting u => rfl
  | holding bytes =>
    have hsame : bytes.mapIdx f = bytes := List.mapIdx_eq_iff.2 fun i => by
      rw [hf, Option.map_id']
    rw [mapBytes, hsame]

theorem mapBytes_mapBytes (f g : Nat → UInt8 → UInt8) (c : Cell) :
    (c.mapBytes f).mapBytes g = c.mapBytes fun i byte => g i (f i byte) := by
  cases c with
  | waiting u => rfl
  | holding bytes => rw [mapBytes, mapBytes, mapBytes, List.mapIdx_mapIdx]; rfl

end Cell

namespace Flat

def Waits (memory : Flat) (pl : Place) : Prop := ∃ u, memory pl = some (.waiting u)

/-- A process reads `byte` at `x`, unless the page there is none of anonymous memory. -/
def Yields (memory : Flat) (id : SpaceId) (x : Nat) (byte : UInt8) : Prop :=
  match memory (.containing id x) with
  | none => True
  | some (.waiting _) => False
  | some (.holding bytes) => bytes[x % pageSize]? = some byte

/-- Bytes that are stored from `start` on go to the populated pages they meet. -/
def stored (memory : Flat) (id : SpaceId) (start : Nat) (source : Bytes) : Flat := fun pl =>
  (memory pl).map (Cell.mapBytes (pl.receives id start source))

/-- A single cell. -/
def single (pl : Place) (c : Option Cell) : Flat := update (fun _ => none) pl c

/-- The pages of a segment, each with its own stretch of the file. -/
def segment (id : SpaceId) (start : Nat) (file : Handle) (offset readBytes total : Nat) : Flat :=
  fun pl =>
    if pl.space = id ∧ start ≤ pl.key ∧ pl.key < start + total ∧ pl.key % pageSize = 0 then
      let readBytes := min (readBytes - (pl.key - start)) pageSize
      Cell.first .anonymous (some .fileSlice) {
        file := some file
        offset := offset + (pl.key - start)
        readBytes
        zeroBytes := pageSize - readBytes }
    else none

/-- Memory with the waiting cells taken from a later one. -/
def overtaken (memory later : Flat) : Flat := fun pl =>
  match memory pl with
  | some (.waiting _) => later pl
  | c => c

section Stored

variable {memory : Flat} {pl : Place} {id : SpaceId} {start : Nat} {source first others : Bytes}

theorem overtaken_of_waits {later : Flat} (h : memory.Waits pl) :
    memory.overtaken later pl = later pl := by
  obtain ⟨u, hu⟩ := h
  rw [overtaken, hu]

theorem overtaken_of_settled {later : Flat} (h : ¬ memory.Waits pl) :
    memory.overtaken later pl = memory pl := by
  unfold overtaken
  split
  · rename_i u hu
    exact absurd ⟨u, hu⟩ h
  · rfl

theorem not_waits_of_yields {x : Nat} {byte : UInt8} (h : memory.Yields id x byte) :
    ¬ memory.Waits (.containing id x) := by
  rintro ⟨u, hu⟩
  unfold Yields at h
  rw [hu] at h
  exact h

theorem receives_nil (i : Nat) (byte : UInt8) : pl.receives id start [] i byte = byte := by
  unfold Place.receives
  split <;> rfl

theorem receives_append (i : Nat) (byte : UInt8) :
    pl.receives id start (first ++ others) i byte =
      pl.receives id (start + first.length) others i (pl.receives id start first i byte) := by
  unfold Place.receives
  by_cases hpl : Place.containing id (pl.key + i) = pl ∧ start ≤ pl.key + i
  · rw [if_pos hpl, if_pos hpl]
    by_cases hfirst : pl.key + i - start < first.length
    · rw [if_neg (by omega), List.getElem?_append_left hfirst]
    · rw [if_pos ⟨hpl.1, by omega⟩, List.getElem?_append_right (by omega),
        List.getElem?_eq_none (by omega : first.length ≤ pl.key + i - start), Option.getD_none,
        Nat.sub_sub]
  · rw [if_neg hpl, if_neg hpl, if_neg fun hlater => hpl ⟨hlater.1, by omega⟩]

/-- A page that no byte of the source goes to stays. -/
theorem receives_elsewhere (h : ∀ i < source.length, Place.containing id (start + i) ≠ pl) (i : Nat)
    (byte : UInt8) : pl.receives id start source i byte = byte := by
  unfold Place.receives
  split
  · rename_i hpl
    rw [List.getElem?_eq_none, Option.getD_none]
    by_contra hcon
    refine h (pl.key + i - start) (by omega) ?_
    rw [Nat.add_sub_cancel' hpl.2, hpl.1]
  · rfl

theorem stored_nil : memory.stored id start [] = memory := by
  funext pl
  have hsame : Cell.mapBytes (pl.receives id start []) = fun c => c :=
    funext fun c => Cell.mapBytes_of_same receives_nil c
  rw [stored, hsame, Option.map_id']

theorem waits_stored : (memory.stored id start source).Waits pl ↔ memory.Waits pl := by
  unfold Waits stored
  cases memory pl with
  | none => exact Iff.rfl
  | some c =>
    cases c with
    | waiting u => exact Iff.rfl
    | holding bytes => simp [Cell.mapBytes]

/-- Storing the second part after the first is storing the whole. -/
theorem stored_append :
    (memory.stored id start first).stored id (start + first.length) others pl =
      memory.stored id start (first ++ others) pl := by
  unfold stored
  rw [Option.map_map]
  refine congrArg (fun f => Option.map f (memory pl)) (funext fun c => ?_)
  rw [Function.comp_apply, Cell.mapBytes_mapBytes]
  exact congrArg (fun f => Cell.mapBytes f c) (funext fun i => funext fun byte =>
    (receives_append i byte).symm)

end Stored

end Flat

structure Ideal where
  memory : Flat
  files : FileStore

namespace Ideal

/-- Pages among those told may be populated. -/
structure Touches (among : Place → Prop) (m n : Ideal) : Prop where
  traffic : m.files.Traffic n.files
  cells : ∀ pl, Settles m.files n.files (m.memory pl) (n.memory pl)
  elsewhere : ∀ pl, ¬ among pl → n.memory pl = m.memory pl

/-- The bytes are stored after the pages they go to were populated. -/
def Stores (among : Place → Prop) (id : SpaceId) (start : Nat) (bytes : Bytes) (m n : Ideal) :
    Prop :=
  ∃ populated : Flat, m.Touches among ⟨populated, n.files⟩ ∧
    (∀ i < bytes.length, ¬ populated.Waits (.containing id (start + i))) ∧
    n.memory = populated.stored id start bytes

/-- Cells come where there were none. -/
def Gains (cells : Flat) (m n : Ideal) : Prop :=
  (∀ pl, m.memory pl = none ∨ cells pl = none) ∧
    n.memory = fun pl => (m.memory pl).or (cells pl)

/-- The places that a range of addresses meets. -/
def Meets (id : SpaceId) (start length : Nat) (pl : Place) : Prop :=
  ∃ i < length, pl = .containing id (start + i)

/-- What an operation on a space means, with what it answers. -/
def Performs (id : SpaceId) (a : VirtualAddress) (m n : Ideal) :
    SpaceOp → Except Failure Value → Prop
  | .registerAnonymous _, .ok _ =>
    m.Gains (.single (.containing id a.value) (Cell.first .anonymous none {})) n
  | .register _ type init slice, .ok _ =>
    m.Gains (.single (.containing id a.value) (Cell.first type init slice)) n
  | .registerSegment file offset readBytes zeroBytes _, .ok _ =>
    m.Gains (.segment id a.value file offset readBytes (readBytes + zeroBytes)) n
  | .remove, .ok _ => n.memory = update m.memory (.containing id a.value) none
  | .teardown, .ok _ => n.memory = fun pl => if pl.space = id then none else m.memory pl
  | .duplicate _, .ok (.space child) =>
    (∀ pl, pl.space = child → m.memory pl = none) ∧
      n.memory = fun pl => if pl.space = child then m.memory ⟨id, pl.key⟩ else m.memory pl
  | .claim, _ => m.Touches (· = .containing id a.value) n
  | .pin, _ => m.Touches (· = .containing id a.value) n
  | .fault .., _ =>
    ∃ grown, (grown = m ∨ grown.files = m.files ∧
      m.Gains (.single (.containing id a.value) (Cell.first .anonymous none {})) grown) ∧
      grown.Touches (· = .containing id a.value) n
  | .copyFrom length, .ok (.bytes bytes) =>
    m.Touches (Meets id a.value length) n ∧ bytes.length = length ∧
      ∀ i byte, bytes[i]? = some byte → n.memory.Yields id (a.value + i) byte
  | .copyFrom length, _ => m.Touches (Meets id a.value length) n
  | .copyTo bytes, .ok _ => m.Stores (Meets id a.value bytes.length) id a.value bytes n
  | .copyTo bytes, .error _ =>
    ∃ count, m.Stores (Meets id a.value bytes.length) id a.value (bytes.take count) n
  | _, _ => n.memory = m.memory

def Step (m n : Ideal) : Op → Except Failure Value → Prop
  | .onSpace id address op, r => m.Performs id ⟨address⟩ n op r
  | _, _ => n.memory = m.memory

/-- One operation after the other, with the states they lead to. -/
inductive Run : Ideal → List Op → List (Except Failure Value) → List Ideal → Prop
  | nil {m : Ideal} : Run m [] [] []
  | cons {m n : Ideal} {op : Op} {ops : List Op} {r : Except Failure Value}
      {results : List (Except Failure Value)} {states : List Ideal} (first : m.Step n op r)
      (others : Run n ops results states) : Run m (op :: ops) (r :: results) (n :: states)

variable {among : Place → Prop} {m n o : Ideal} {id : SpaceId} {start : Nat}

theorem Meets.first {length : Nat} (h : 0 < length) : Meets id start length (.containing id start) :=
  ⟨0, h, rfl⟩

theorem Meets.later {length count : Nat} {pl : Place} (hle : count ≤ length)
    (h : Meets id (start + count) (length - count) pl) : Meets id start length pl := by
  obtain ⟨i, hi, rfl⟩ := h
  exact ⟨count + i, by omega, by rw [Nat.add_assoc]⟩

theorem Gains.trans {cells more : Flat} (h : m.Gains cells n) (h' : n.Gains more o) :
    m.Gains (fun pl => (cells pl).or (more pl)) o := by
  constructor
  · intro pl
    rcases h.1 pl with hnone | hnone
    · exact .inl hnone
    · rcases h'.1 pl with hvacant | hvacant
      · rw [h.2] at hvacant
        exact .inl (Option.or_eq_none_iff.1 hvacant).1
      · exact .inr (Option.or_eq_none_iff.2 ⟨hnone, hvacant⟩)
  · rw [h'.2, h.2]
    funext pl
    exact Option.or_assoc

/-- A cell comes to a place that had none. -/
theorem Gains.of_update {pl : Place} {c : Option Cell} (hvacant : m.memory pl = none)
    (hn : n.memory = update m.memory pl c) : m.Gains (.single pl c) n := by
  constructor
  · intro other
    by_cases he : other = pl
    · exact .inl (he ▸ hvacant)
    · exact .inr (update_of_ne he ..)
  · rw [hn]
    funext other
    unfold Flat.single
    by_cases he : other = pl
    · rw [he, update_self, update_self, hvacant, Option.none_or]
    · rw [update_of_ne he, update_of_ne he, Option.or_none]

theorem Touches.refl : m.Touches among m := ⟨.refl, fun _ => .still, fun _ _ => rfl⟩

theorem Touches.trans (h : m.Touches among n) (h' : n.Touches among o) : m.Touches among o where
  traffic := h.traffic.trans h'.traffic
  cells pl := (h.cells pl).trans (h'.cells pl) h.traffic h'.traffic
  elsewhere pl hpl := (h'.elsewhere pl hpl).trans (h.elsewhere pl hpl)

theorem Touches.mono {more : Place → Prop} (h : m.Touches among n)
    (hsub : ∀ pl, among pl → more pl) : m.Touches more n :=
  ⟨h.traffic, h.cells, fun pl hpl => h.elsewhere pl fun hin => hpl (hsub pl hin)⟩

/-- A cell that holds bytes is not touched any more. -/
theorem Touches.settled (h : m.Touches among n) {pl : Place} (hpl : ¬ m.memory.Waits pl) :
    n.memory pl = m.memory pl := by
  have hcell := h.cells pl
  unfold Flat.Waits at hpl
  generalize m.memory pl = c at *
  generalize n.memory pl = d at *
  cases hcell with
  | still => rfl
  | filled => exact absurd ⟨_, rfl⟩ hpl

theorem Stores.mono {more : Place → Prop} {bytes : Bytes} (h : m.Stores among id start bytes n)
    (hsub : ∀ pl, among pl → more pl) : m.Stores more id start bytes n := by
  obtain ⟨populated, htouches, hready, hstored⟩ := h
  exact ⟨populated, htouches.mono hsub, hready, hstored⟩

theorem Touches.yields (h : m.Touches among n) {x : Nat} {byte : UInt8}
    (hm : m.memory.Yields id x byte) : n.memory.Yields id x byte := by
  have hsame := h.settled (Flat.not_waits_of_yields hm)
  unfold Flat.Yields
  rw [hsame]
  exact hm

theorem Touches.stores {bytes : Bytes} (h : m.Touches among n)
    (h' : n.Stores among id start bytes o) : m.Stores among id start bytes o := by
  obtain ⟨populated, htouches, hready, hstored⟩ := h'
  exact ⟨populated, h.trans htouches, hready, hstored⟩

theorem Touches.stores_nil (h : m.Touches among n) : m.Stores among id start [] n := by
  refine ⟨n.memory, h, ?_, Flat.stored_nil.symm⟩
  intro i hi
  cases hi

/-- Two stores in a row are one. Pages that are populated in between are none of those that the
first store went to, so they may as well be populated before it. -/
theorem Stores.append {first others : Bytes} (h : m.Stores among id start first n)
    (h' : n.Stores among id (start + first.length) others o) :
    m.Stores among id start (first ++ others) o := by
  obtain ⟨early, htouches, hready, hn⟩ := h
  obtain ⟨late, htouches', hready', ho⟩ := h'
  have hwaits : ∀ pl, n.memory.Waits pl ↔ early.Waits pl := fun pl => by
    rw [hn]
    exact Flat.waits_stored
  have hlate : ∀ {pl}, ¬ early.Waits pl → late pl = n.memory pl := fun hpl =>
    htouches'.settled (mt (hwaits _).1 hpl)
  have hwaiting : ∀ {pl}, early.Waits pl → n.memory pl = early pl := by
    rintro pl ⟨u, hu⟩
    rw [hn, Flat.stored, hu]
    rfl
  refine ⟨early.overtaken late, ⟨?_, fun pl => ?_, fun pl hpl => ?_⟩, fun i hi => ?_, ?_⟩
  · exact htouches.traffic.trans htouches'.traffic
  · dsimp only
    by_cases hwait : early.Waits pl
    · have hlater := htouches'.cells pl
      rw [hwaiting hwait] at hlater
      rw [Flat.overtaken_of_waits hwait]
      exact (htouches.cells pl).trans hlater htouches.traffic htouches'.traffic
    · rw [Flat.overtaken_of_settled hwait]
      exact (htouches.cells pl).trans .still htouches.traffic htouches'.traffic
  · have hearly := htouches.elsewhere pl hpl
    dsimp only
    by_cases hwait : early.Waits pl
    · rw [Flat.overtaken_of_waits hwait]
      exact (htouches'.elsewhere pl hpl).trans ((hwaiting hwait).trans hearly)
    · rw [Flat.overtaken_of_settled hwait]
      exact hearly
  · rintro ⟨u, hu⟩
    by_cases hwait : early.Waits (.containing id (start + i))
    · rw [Flat.overtaken_of_waits hwait] at hu
      by_cases hfirst : i < first.length
      · exact hready i hfirst hwait
      · rw [List.length_append] at hi
        have hlater := hready' (i - first.length) (by omega)
        rw [Nat.add_assoc, Nat.add_sub_cancel' (by omega)] at hlater
        exact hlater ⟨u, hu⟩
    · rw [Flat.overtaken_of_settled hwait] at hu
      exact hwait ⟨u, hu⟩
  · rw [ho]
    funext pl
    by_cases hwait : early.Waits pl
    · have helsewhere : ∀ i < first.length, Place.containing id (start + i) ≠ pl := by
        rintro i hi rfl
        exact hready i hi hwait
      rw [Flat.stored, Flat.stored, Flat.overtaken_of_waits hwait]
      refine congrArg (fun f => Option.map (Cell.mapBytes f) (late pl)) ?_
      funext i byte
      rw [Flat.receives_append, Flat.receives_elsewhere helsewhere]
    · have hsame : late pl = early.stored id start first pl := by rw [hlate hwait, hn]
      calc late.stored id (start + first.length) others pl
          = (early.stored id start first).stored id (start + first.length) others pl := by
            rw [Flat.stored, hsame]
            rfl
        _ = early.stored id start (first ++ others) pl := Flat.stored_append
        _ = _ := by rw [Flat.stored, Flat.stored, Flat.overtaken_of_settled hwait]

end Ideal

end Pager
