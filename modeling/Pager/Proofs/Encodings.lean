import Mathlib.Data.Option.Basic
import Mathlib.Data.Set.Card
import Pager.Proofs.Translation

/-!
A directory as a map from pages to translations, however its entries are packed into words.
Both formats keep what is entered: the same changes lead to the same answers, and these are
the answers of a map that has frames and bits side by side.
-/
namespace Pager

open Function

/-- What a directory says of a page that is present. -/
structure Translation where
  frame : Nat
  writable : Bool
  accessed : Bool := false
  dirty : Bool := false

/-- The pages that are present, with their translations. -/
abbrev TranslationMap := VirtualAddress → Option Translation

/-- A change of a directory. -/
inductive DirectoryOp where
  | map (page : VirtualAddress) (frame : Nat) (writable : Bool)
  | unmap (page : VirtualAddress)
  | setDirty (page : VirtualAddress) (b : Bool)
  | setAccessed (page : VirtualAddress) (b : Bool)

/-- Only whole pages are entered, and only in frames below 4 GiB. -/
def DirectoryOp.Aligned : DirectoryOp → Prop
  | map page frame _ => page.isPageAligned = true ∧ frame % pageSize = 0 ∧ frame < 1 <<< 32
  | _ => True

instance (op : DirectoryOp) : Decidable op.Aligned := by
  cases op <;> unfold DirectoryOp.Aligned <;> infer_instance

/-- All that can be asked of a directory. -/
structure DirectoryAnswers where
  frame : VirtualAddress → Option Nat
  present : VirtualAddress → Bool
  dirty : VirtualAddress → Bool
  accessed : VirtualAddress → Bool
  /-- Is the page's entry present, may it be written to, and by the user? -/
  flags : VirtualAddress → Option (Bool × Bool × Bool)
  size : Nat
  isEmpty : Bool

namespace TranslationMap

def perform (m : TranslationMap) : DirectoryOp → TranslationMap
  | .map page frame writable => update m page (some { frame, writable })
  | .unmap page => update m page none
  | .setDirty page b => update m page ((m page).map fun t => { t with dirty := b })
  | .setAccessed page b => update m page ((m page).map fun t => { t with accessed := b })

/-- The map that changes lead to, from the empty one on. -/
def after (ops : List DirectoryOp) : TranslationMap := ops.foldl perform fun _ => none

open Classical in
noncomputable def answers (m : TranslationMap) : DirectoryAnswers where
  frame page := (m page).map Translation.frame
  present page := (m page).isSome
  dirty page := (m page).any Translation.dirty
  accessed page := (m page).any Translation.accessed
  flags page := (m page).map fun t => (true, t.writable, true)
  size := {page | (m page).isSome = true}.ncard
  isEmpty := decide (∀ page, m page = none)

end TranslationMap

namespace Directory

variable {format : EntryFormat}

def perform (d : Directory format) : DirectoryOp → Except Bug (Directory format)
  | .map page frame writable => d.map page ⟨frame⟩ writable
  | .unmap page => .ok (d.unmap page)
  | .setDirty page b => .ok (d.set page .dirty b)
  | .setAccessed page b => .ok (d.set page .accessed b)

/-- Makes changes one after the other. -/
def performAll (ops : List DirectoryOp) (d : Directory format) : Except Bug (Directory format) :=
  ops.foldlM perform d

def answers (d : Directory format) : DirectoryAnswers where
  frame page := (d.frameAt? page).map Address.value
  present := d.isPresent
  dirty page := d.has page .dirty
  accessed page := d.has page .accessed
  flags page := (d.get? page).map fun e =>
    (e.flags.has .present, e.flags.has .writable, e.flags.has .user)
  size := d.size
  isEmpty := d.isEmpty

end Directory

/-- The bit that a translation has under a flag: whoever is present is open to the user. -/
def Translation.bit (t : Translation) : PageFlag → Bool
  | .present => true
  | .writable => t.writable
  | .user => true
  | .accessed => t.accessed
  | .dirty => t.dirty

namespace PageEntry

variable {format : EntryFormat} [format.Faithful] {e : PageEntry format} {t : Translation}

/-- The entry's word holds the translation. -/
structure Encodes (e : PageEntry format) (t : Translation) : Prop where
  frame : e.frame? = some ⟨t.frame⟩
  bit : ∀ flag, e.flags.has flag = t.bit flag

theorem encodes_make {frame : Nat} {writable : Bool} (hframe : frame < 1 <<< 32)
    (h : PageEntry.make ⟨frame⟩ (Directory.freshFlags writable) = .ok e) :
    e.Encodes { frame, writable } where
  frame := frame?_make h (by rw [Directory.has_freshFlags]; rfl) hframe
  bit flag := by
    rw [has_flags_make h, Directory.has_freshFlags]
    cases flag <;> cases writable <;> rfl

/-- Changing a bit of the entry that is no part of the translation changes the same bit of what
it encodes. -/
theorem Encodes.setFlags {u : Translation} (h : e.Encodes t) {flag : PageFlag} {b : Bool}
    (hflag : flag ≠ .present) (hframe : u.frame = t.frame)
    (hbit : ∀ other, u.bit other = if other = flag then b else t.bit other) :
    (e.setFlags (e.flags.set flag b)).Encodes u where
  frame := by
    rw [frame?_setFlags (by rw [PageFlags.has_set, if_neg hflag.symm]), hframe]
    exact h.frame
  bit other := by
    rw [has_flags_setFlags, PageFlags.has_set, hbit, h.bit]

end PageEntry

namespace Directory

variable {format : EntryFormat}

/-- The directory has an entry for exactly the pages of the map, and it encodes what the map
says. -/
def Reflects (d : Directory format) (m : TranslationMap) : Prop :=
  ∀ page, Option.Rel PageEntry.Encodes (d.get? page) (m page)

variable {d : Directory format} {m : TranslationMap}

theorem Reflects.page (h : d.Reflects m) (page : VirtualAddress) :
    (d.get? page = none ∧ m page = none) ∨
      ∃ e t, d.get? page = some e ∧ m page = some t ∧ e.Encodes t := by
  have hrel := h page
  generalize d.get? page = entry, m page = told at hrel
  cases hrel with
  | none => exact .inl ⟨rfl, rfl⟩
  | some hencodes => exact .inr ⟨_, _, rfl, rfl, hencodes⟩

theorem reflects_empty : (empty : Directory format).Reflects fun _ => none := fun _ => .none

/-- A change at one page. -/
theorem Reflects.update {after : Directory format} {page : VirtualAddress}
    {entry : Option (PageEntry format)} {t : Option Translation} (h : d.Reflects m)
    (hentry : Option.Rel PageEntry.Encodes entry t)
    (hget : ∀ other, after.get? other = if other = page then entry else d.get? other) :
    after.Reflects (Function.update m page t) := by
  intro other
  rw [hget, update_apply]
  split
  · exact hentry
  · exact h other

/-- One of the two bits that the processor sets. -/
theorem Reflects.set [format.Faithful] (h : d.Reflects m) (page : VirtualAddress)
    {flag : PageFlag} {b : Bool} {f : Translation → Translation} (hflag : flag ≠ .present)
    (hframe : ∀ t, (f t).frame = t.frame)
    (hbit : ∀ t other, (f t).bit other = if other = flag then b else t.bit other) :
    (d.set page flag b).Reflects (Function.update m page ((m page).map f)) := by
  have hentry : Option.Rel PageEntry.Encodes
      ((d.get? page).map fun e => e.setFlags (e.flags.set flag b)) ((m page).map f) := by
    obtain ⟨hnone, hm⟩ | ⟨e, t, he, hm, hencodes⟩ := h.page page
    · rw [hnone, hm]
      exact .none
    · rw [he, hm]
      exact .some (hencodes.setFlags hflag (hframe t) (hbit t))
  refine h.update hentry fun other => ?_
  rw [get?_set]
  by_cases he : other = page
  · rw [if_pos he, if_pos he, he]
  · rw [if_neg he, if_neg he]

/-- Every change goes through, and the directory still reflects the map. -/
theorem Reflects.perform [format.Faithful] (h : d.Reflects m) {op : DirectoryOp}
    (hop : op.Aligned) : ∃ after, d.perform op = .ok after ∧ after.Reflects (m.perform op) := by
  cases op with
  | map page frame writable =>
    obtain ⟨hpage, haligned, hframe⟩ := hop
    have hmake : ∃ e : PageEntry format,
        PageEntry.make ⟨frame⟩ (freshFlags writable) = .ok e := by
      unfold PageEntry.make
      rw [if_pos]
      · exact ⟨_, rfl⟩
      · simpa [Address.isPageAligned, Address.pageOffset] using haligned
    obtain ⟨e, he⟩ := hmake
    refine ⟨_, map_eq_ok.2 ⟨hpage, e, he, rfl⟩,
      h.update (.some (PageEntry.encodes_make hframe he)) fun other => ?_⟩
    obtain ⟨p⟩ := page
    obtain ⟨o⟩ := other
    simp [get?, Table.get?_insert]
  | unmap page => exact ⟨_, rfl, h.update .none fun other => get?_unmap d page other⟩
  | setDirty page b =>
    refine ⟨_, rfl, h.set page (by decide) (fun _ => rfl) fun t other => ?_⟩
    cases other <;> rfl
  | setAccessed page b =>
    refine ⟨_, rfl, h.set page (by decide) (fun _ => rfl) fun t other => ?_⟩
    cases other <;> rfl

theorem Reflects.performAll [format.Faithful] (h : d.Reflects m) {ops : List DirectoryOp}
    (hops : ∀ op ∈ ops, op.Aligned) :
    ∃ after, performAll ops d = .ok after ∧
      after.Reflects (ops.foldl TranslationMap.perform m) := by
  induction ops generalizing d m with
  | nil => exact ⟨d, rfl, h⟩
  | cons op rest ih =>
    obtain ⟨middle, hfirst, hmiddle⟩ := h.perform (hops op (List.mem_cons_self ..))
    obtain ⟨after, hrest, hafter⟩ := ih hmiddle fun o ho => hops o (List.mem_cons_of_mem _ ho)
    refine ⟨after, ?_, hafter⟩
    rw [Directory.performAll, List.foldlM_cons, hfirst]
    exact hrest

/-- A directory is as large as the number of pages that have an entry. -/
theorem size_eq_ncard (d : Directory format) :
    d.size = {page | (d.get? page).isSome = true}.ncard := by
  have hkeys : {page | (d.get? page).isSome = true} =
      (fun key => (⟨key⟩ : VirtualAddress)) '' {key | key ∈ d.entries.keys} := by
    ext ⟨key⟩
    simp [get?, ← Table.contains_iff, Table.contains]
  have hinj : Injective fun key => (⟨key⟩ : VirtualAddress) := fun _ _ h => congrArg Address.value h
  have hnodup : d.entries.keys.Nodup := d.entries.sorted_keys.imp Nat.ne_of_lt
  rw [hkeys, Set.ncard_image_of_injective _ hinj, ← List.coe_toFinset, Set.ncard_coe_finset,
    List.toFinset_card_of_nodup hnodup, size, Table.size, Table.keys, List.length_map]

theorem isEmpty_iff : d.isEmpty = true ↔ ∀ page, d.get? page = none := by
  have hempty : d.isEmpty = true ↔ d.entries.keys = [] := by
    simp [isEmpty, size, Table.size, Table.keys]
  rw [hempty, List.eq_nil_iff_forall_not_mem]
  constructor
  · intro h page
    exact d.entries.get?_eq_none_iff.2 (h page.value)
  · intro h key
    exact d.entries.get?_eq_none_iff.1 (h ⟨key⟩)

theorem Reflects.isSome_get? (h : d.Reflects m) (page : VirtualAddress) :
    (d.get? page).isSome = (m page).isSome := by
  obtain ⟨hnone, hm⟩ | ⟨e, t, he, hm, -⟩ := h.page page
  · rw [hnone, hm]
    rfl
  · rw [he, hm]
    rfl

theorem Reflects.frameAt? (h : d.Reflects m) (page : VirtualAddress) :
    d.frameAt? page = (m page).map fun t => ⟨t.frame⟩ := by
  rw [Directory.frameAt?]
  obtain ⟨hnone, hm⟩ | ⟨e, t, he, hm, hencodes⟩ := h.page page
  · rw [hnone, hm]
    rfl
  · rw [he, hm]
    exact hencodes.frame

theorem Reflects.has (h : d.Reflects m) (page : VirtualAddress) (flag : PageFlag) :
    d.has page flag = (m page).any (·.bit flag) := by
  rw [Directory.has, Directory.flags]
  obtain ⟨hnone, hm⟩ | ⟨e, t, he, hm, hencodes⟩ := h.page page
  · rw [hnone, hm]
    exact PageFlags.has_empty flag
  · rw [he, hm]
    exact hencodes.bit flag

theorem Reflects.flags (h : d.Reflects m) (page : VirtualAddress) :
    (d.get? page).map (fun e =>
        (e.flags.has .present, e.flags.has .writable, e.flags.has .user)) =
      (m page).map fun t => (true, t.writable, true) := by
  obtain ⟨hnone, hm⟩ | ⟨e, t, he, hm, hencodes⟩ := h.page page
  · rw [hnone, hm]
    rfl
  · rw [he, hm, Option.map_some, hencodes.bit, hencodes.bit, hencodes.bit]
    rfl

/-- The directory answers every question as the map does. -/
theorem Reflects.answers (h : d.Reflects m) : d.answers = m.answers := by
  have hsize : d.size = {page | (m page).isSome = true}.ncard := by
    rw [size_eq_ncard]
    simp only [h.isSome_get?]
  have hempty : d.isEmpty = true ↔ ∀ page, m page = none := by
    rw [isEmpty_iff]
    refine forall_congr' fun page => ?_
    rw [← Option.isNone_iff_eq_none, ← Option.isNone_iff_eq_none, ← Option.not_isSome,
      ← Option.not_isSome, h.isSome_get?]
  unfold Directory.answers TranslationMap.answers
  congr 1
  · funext page
    rw [h.frameAt?, Option.map_map]
    rfl
  · funext page
    rw [isPresent, h.frameAt?, Option.isSome_map]
  · exact funext fun page => h.has page .dirty
  · exact funext fun page => h.has page .accessed
  · exact funext h.flags
  · classical exact Bool.eq_iff_iff.2 (hempty.trans decide_eq_true_iff.symm)

end Directory

namespace EntryFormat

/-- The format of the hardware's entries, where its flag words have names for these bits. -/
@[reducible] def hardwareNaming (named : BitVec 64) : EntryFormat :=
  { hardware with namedFlags := named }

theorem faithful_hardwareNaming {named : BitVec 64}
    (hnamed : ∀ i, i < 12 ∨ 52 ≤ i ∧ i < 64 → named.getLsbD i = true) :
    (hardwareNaming named).Faithful where
  keepsFlag flag := by
    have hmask : hardware.flagMask.getLsbD flag.bit = true := by cases flag <;> decide
    have hbit : flag.bit < 12 := by cases flag <;> decide
    rw [BitVec.getLsbD_and, hmask, hnamed flag.bit (.inl hbit)]
    rfl
  keepsFrame {i} hlow hhigh := by
    have : ∀ i < 32, 12 ≤ i → hardware.addressMask.getLsbD i = true := by decide
    exact this i hhigh hlow

end EntryFormat

namespace Directory

/-- Over the emulated entries and over those of the hardware, as long as the latter's flag words
name the bits 0 to 11 and 52 to 63, a directory goes through the same changes to the same
answers, and these are what the map of the changes says. -/
theorem performAll_faithful {named : BitVec 64} {ops : List DirectoryOp}
    (hnamed : ∀ i, i < 12 ∨ 52 ≤ i ∧ i < 64 → named.getLsbD i = true)
    (hops : ∀ op ∈ ops, op.Aligned) :
    ∃ (d : Directory .emulated) (e : Directory (.hardwareNaming named)),
      performAll ops .empty = .ok d ∧ performAll ops .empty = .ok e ∧
        d.answers = e.answers ∧ d.answers = (TranslationMap.after ops).answers := by
  have := EntryFormat.faithful_hardwareNaming hnamed
  obtain ⟨d, hd, hemulated⟩ :=
    Reflects.performAll (d := (empty : Directory .emulated)) reflects_empty hops
  obtain ⟨e, he, hhardware⟩ :=
    Reflects.performAll (d := (empty : Directory (.hardwareNaming named))) reflects_empty hops
  exact ⟨d, e, hd, he, hemulated.answers.trans hhardware.answers.symm, hemulated.answers⟩

/-- A page that is stored to and then entered in another frame, and one in the last frame of all
that is taken out after its neighbour's bits were asked for. -/
def remapping : List DirectoryOp :=
  [.map ⟨0x10000000⟩ 0x7000 true, .setDirty ⟨0x10000000⟩ true, .setAccessed ⟨0x10001000⟩ true,
    .map ⟨0x10001000⟩ 0xFFFFF000 false, .setAccessed ⟨0x10001000⟩ true,
    .map ⟨0x10000000⟩ 0x8000 false, .unmap ⟨0x10002000⟩]

theorem performAll_faithful_of_remapping :
    (∀ i, i < 12 ∨ 52 ≤ i ∧ i < 64 → EntryFormat.hardware.namedFlags.getLsbD i = true) ∧
      (∀ op ∈ remapping, op.Aligned) ∧
      ∃ (d : Directory .emulated) (e : Directory .hardware),
        performAll remapping .empty = .ok d ∧ performAll remapping .empty = .ok e ∧
          d.answers = e.answers ∧ e.answers.frame ⟨0x10001000⟩ = some 0xFFFFF000 ∧
          e.answers.accessed ⟨0x10001000⟩ = true ∧ e.answers.dirty ⟨0x10000000⟩ = false ∧
          e.answers.flags ⟨0x10000000⟩ = some (true, false, true) ∧ e.answers.size = 2 := by
  have hnamed : ∀ i, i < 12 ∨ 52 ≤ i ∧ i < 64 →
      EntryFormat.hardware.namedFlags.getLsbD i = true := by
    have : ∀ i < 64, i < 12 ∨ 52 ≤ i → EntryFormat.hardware.namedFlags.getLsbD i = true := by
      decide
    exact fun i hi => this i (by omega) (by omega)
  have hops : ∀ op ∈ remapping, op.Aligned := by decide
  obtain ⟨d, e, hd, he, hsame, hanswers⟩ := performAll_faithful hnamed hops
  have hmap := hsame.symm.trans hanswers
  refine ⟨hnamed, hops, d, e, hd, he, hsame, ?_, ?_, ?_, ?_, ?_⟩
  · rw [hmap]
    rfl
  · rw [hmap]
    rfl
  · rw [hmap]
    rfl
  · rw [hmap]
    rfl
  · cases he
    rfl

end Directory
end Pager
