import Mathlib.Data.Nat.Bitwise
import Mathlib.Order.Bounds.Basic
import Pager.Proofs.Execution

/-!
Address arithmetic. Every operation gives the exact result or none, and none but addresses, as
long as no subtraction that stops at the null address lands in the hole between the two ranges
of virtual addresses: that one does not ask whether its result is an address.
-/
namespace Pager

namespace AddressKind

/-- Bits 48 to 63 of a virtual address repeat bit 47, and a physical one fits its width. -/
def Valid : AddressKind → Nat → Prop
  | .virtual, n => n < 2 ^ 64 ∧ ∀ i < 64, 48 ≤ i → n.testBit i = n.testBit 47
  | .physical width, n => n < 2 ^ width

/-- The addresses of the kind are words. -/
def FitsWord : AddressKind → Prop
  | .virtual => True
  | .physical width => width ≤ 64

variable {kind : AddressKind} {n : Nat}

/-- All bits of a number are the same only in the least and the greatest of its width. -/
theorem testBit_repeats_iff {m width : Nat} (hm : m < 2 ^ width) :
    (∀ i < width, m.testBit i = m.testBit 0) ↔ m = 0 ∨ m = 2 ^ width - 1 := by
  have hhigh : ∀ i, ¬ i < width → m.testBit i = false := fun i hi =>
    Nat.testBit_lt_two_pow (Nat.lt_of_lt_of_le hm (Nat.pow_le_pow_right (by omega) (by omega)))
  constructor
  · intro hsame
    cases hfirst : m.testBit 0 with
    | false =>
      left
      apply Nat.eq_of_testBit_eq
      intro i
      rw [Nat.zero_testBit]
      by_cases hi : i < width
      · rw [hsame i hi, hfirst]
      · exact hhigh i hi
    | true =>
      right
      apply Nat.eq_of_testBit_eq
      intro i
      rw [Nat.testBit_two_pow_sub_one]
      by_cases hi : i < width
      · rw [hsame i hi, hfirst, decide_eq_true hi]
      · rw [hhigh i hi, decide_eq_false hi]
  · rintro (rfl | rfl) i hi
    · rw [Nat.zero_testBit, Nat.zero_testBit]
    · rw [Nat.testBit_two_pow_sub_one, Nat.testBit_two_pow_sub_one, decide_eq_decide]
      omega

/-- The upper 17 bits of a word are the same exactly in the first and the last 2^47 words. -/
theorem valid_virtual_iff : AddressKind.virtual.Valid n ↔
    n < 2 ^ 47 ∨ 2 ^ 64 - 2 ^ 47 ≤ n ∧ n < 2 ^ 64 := by
  have hbit : ∀ i, n.testBit (i + 47) = (n / 2 ^ 47).testBit i := fun i =>
    (Nat.testBit_div_two_pow n i).symm
  have hupper : n < 2 ^ 64 → ((∀ i < 64, 48 ≤ i → n.testBit i = n.testBit 47) ↔
      n / 2 ^ 47 = 0 ∨ n / 2 ^ 47 = 2 ^ 17 - 1) := by
    intro hword
    rw [← testBit_repeats_iff (by omega)]
    constructor
    · intro hsame i hi
      rw [← hbit, ← hbit]
      by_cases hzero : i = 0
      · rw [hzero]
      · exact hsame (i + 47) (by omega) (by omega)
    · intro hsame i hi hlow
      obtain ⟨j, rfl⟩ : ∃ j, i = j + 47 := ⟨i - 47, by omega⟩
      rw [hbit, hsame j (by omega), ← hbit]
  constructor
  · rintro ⟨hword, hsame⟩
    have hends := (hupper hword).1 hsame
    omega
  · intro hranges
    have hword : n < 2 ^ 64 := by omega
    exact ⟨hword, (hupper hword).2 (by omega)⟩

/-- What is checked of an address is what makes it one. -/
theorem admits_iff_valid : kind.Admits n ↔ kind.Valid n := by
  cases kind with
  | virtual => exact valid_virtual_iff.symm
  | physical width => rw [Admits, Valid, Nat.one_shiftLeft]

instance (kind : AddressKind) (n : Nat) : Decidable (kind.Valid n) :=
  decidable_of_iff (kind.Admits n) admits_iff_valid

theorem Valid.lt_word (h : kind.Valid n) (hkind : kind.FitsWord) : n < 2 ^ 64 := by
  cases kind with
  | virtual => exact h.1
  | physical width => exact Nat.lt_of_lt_of_le h (Nat.pow_le_pow_right (by omega) hkind)

/-- Both ranges of virtual addresses start at a page boundary, so rounding down stays in them. -/
theorem Valid.roundDown (h : kind.Valid n) : kind.Valid (n / pageSize * pageSize) := by
  cases kind with
  | virtual =>
    rw [valid_virtual_iff] at h ⊢
    unfold pageSize
    omega
  | physical width => exact Nat.lt_of_le_of_lt (Nat.div_mul_le_self n pageSize) h

end AddressKind

/-- What can be asked of an address. Only of a virtual one can the last two be asked. -/
inductive AddressOp : AddressKind → Type
  | make {kind : AddressKind} (n : Nat) : AddressOp kind
  | add {kind : AddressKind} (n : Nat) : AddressOp kind
  | sub {kind : AddressKind} (n : Nat) : AddressOp kind
  | pageBase {kind : AddressKind} : AddressOp kind
  | pageCeil {kind : AddressKind} : AddressOp kind
  | add? (n : Nat) : AddressOp .virtual
  | subOrNull (n : Nat) : AddressOp .virtual

/-- A bug, no address, or an address. -/
abbrev AddressAnswer (kind : AddressKind) := Except Bug (Option (Address kind))

namespace AddressOp

variable {kind : AddressKind} {a b : Address kind} {op : AddressOp kind}

def perform {kind : AddressKind} (a : Address kind) : AddressOp kind → AddressAnswer kind
  | .make n => (Address.make kind n).map some
  | .add n => (a.add n).map some
  | .sub n => (a.sub n).map some
  | .pageBase => .ok (some a.pageBase)
  | .pageCeil => a.pageCeil.map some
  | .add? n => .ok (Address.add? a n)
  | .subOrNull n => .ok (some (Address.subOrNull a n))

/-- The result is `m`, wherever words may end. Nothing is the result of taking more away than
there is, unless that stops at the null address. -/
def Exact {kind : AddressKind} (a : Nat) : AddressOp kind → Nat → Prop
  | .make n, m => m = n
  | .add n, m | .add? n, m => m = a + n
  | .sub n, m => m + n = a
  | .pageBase, m => IsGreatest {k | pageSize ∣ k ∧ k ≤ a} m
  | .pageCeil, m => IsLeast {k | pageSize ∣ k ∧ a ≤ k} m
  | .subOrNull n, m => m + n = a ∨ a < n ∧ m = 0

/-- How an operation says that there is no result: one has an answer for this, all others end in
a bug. -/
def Refuses {kind : AddressKind} : AddressOp kind → AddressAnswer kind → Prop
  | .add? _, r => r = .ok none
  | _, r => ∃ b, r = .error b

/-- The page of `a` is not the last of all, if the operation asks for the end of it. -/
def Ends {kind : AddressKind} (a : Nat) : AddressOp kind → Prop
  | .pageCeil => a + pageSize < 2 ^ 64
  | _ => True

/-- A subtraction that is not checked lands outside the addresses. -/
def Slips {kind : AddressKind} (a : Nat) : AddressOp kind → Prop
  | .subOrNull n => ¬ AddressKind.virtual.Valid (a - n)
  | _ => False

instance {kind : AddressKind} (a : Nat) (op : AddressOp kind) : Decidable (op.Slips a) := by
  cases op <;> unfold Slips <;> infer_instance

/-- An answer is the exact result and an address. Where there is no such address, there is no
answer. -/
structure Exactly (a : Address kind) (op : AddressOp kind) (r : AddressAnswer kind) : Prop where
  returns_iff : ∀ b, r = .ok (some b) ↔
    kind.Valid b.value ∧ op.Exact a.value b.value ∧ op.Ends a.value
  refuses : (∀ b, r ≠ .ok (some b)) → op.Refuses r

end AddressOp

theorem isGreatest_roundDown (n : Nat) :
    IsGreatest {k | pageSize ∣ k ∧ k ≤ n} (n / pageSize * pageSize) := by
  refine ⟨⟨Nat.dvd_mul_left .., Nat.div_mul_le_self ..⟩, ?_⟩
  rintro k ⟨hdvd, hle⟩
  calc
    k = k / pageSize * pageSize := (Nat.div_mul_cancel hdvd).symm
    _ ≤ n / pageSize * pageSize := Nat.mul_le_mul_right _ (Nat.div_le_div_right hle)

theorem isLeast_roundUp (n : Nat) :
    IsLeast {k | pageSize ∣ k ∧ n ≤ k} ((n + pageSize - 1) / pageSize * pageSize) := by
  refine ⟨⟨Nat.dvd_mul_left .., ?_⟩, ?_⟩
  · unfold pageSize
    omega
  · rintro k ⟨hdvd, hle⟩
    obtain ⟨pages, rfl⟩ := hdvd
    unfold pageSize at *
    omega

namespace Address

variable {kind : AddressKind} {a b : Address kind} {n : Nat}

theorem add_eq_ok : a.add n = .ok b ↔
    a.value + n < 2 ^ 64 ∧ kind.Admits (a.value + n) ∧ b = ⟨a.value + n⟩ := by
  rw [add, except_bind_eq_ok]
  simp only [wordAdd_eq_ok, make_eq_ok]
  constructor
  · rintro ⟨_, ⟨hword, rfl⟩, hadmits⟩
    exact ⟨hword, hadmits⟩
  · rintro ⟨hword, hadmits⟩
    exact ⟨_, ⟨hword, rfl⟩, hadmits⟩

theorem sub_eq_ok : a.sub n = .ok b ↔
    n ≤ a.value ∧ kind.Admits (a.value - n) ∧ b = ⟨a.value - n⟩ := by
  rw [sub, except_bind_eq_ok]
  simp only [wordSub_eq_ok, make_eq_ok]
  constructor
  · rintro ⟨_, ⟨hle, rfl⟩, hadmits⟩
    exact ⟨hle, hadmits⟩
  · rintro ⟨hle, hadmits⟩
    exact ⟨_, ⟨hle, rfl⟩, hadmits⟩

theorem pageCeil_eq_ok : a.pageCeil = .ok b ↔ a.value + pageSize < 2 ^ 64 ∧
    kind.Admits ((a.value + pageSize - 1) / pageSize * pageSize) ∧
      b = ⟨(a.value + pageSize - 1) / pageSize * pageSize⟩ := by
  have hround : ∀ n, n - n % pageSize = n / pageSize * pageSize := by
    intro n
    unfold pageSize
    omega
  rw [pageCeil, except_bind_eq_ok]
  simp only [wordAdd_eq_ok, make_eq_ok, hround]
  constructor
  · rintro ⟨_, ⟨hword, rfl⟩, hadmits⟩
    exact ⟨hword, hadmits⟩
  · rintro ⟨hword, hadmits⟩
    exact ⟨_, ⟨hword, rfl⟩, hadmits⟩

theorem add?_eq_some {a b : VirtualAddress} : a.add? n = some b ↔
    a.value + n < 2 ^ 64 ∧ AddressKind.virtual.Admits (a.value + n) ∧ b = ⟨a.value + n⟩ := by
  rw [add?, Option.ite_none_right_eq_some, Option.some.injEq, and_assoc, eq_comm (b := b)]
  rfl

end Address

namespace AddressOp

variable {kind : AddressKind} {a : Address kind} {op : AddressOp kind}

/-- A result that is an address on a condition, and the exact one. -/
theorem returns_iff_of_value {r : Except Bug (Address kind)} {P : Prop} {v : Nat}
    (h : ∀ b, r = .ok b ↔ P ∧ kind.Admits v ∧ b = ⟨v⟩)
    (hexact : ∀ m, kind.Valid m → (op.Exact a.value m ∧ op.Ends a.value ↔ P ∧ m = v))
    (b : Address kind) :
    r = .ok b ↔ kind.Valid b.value ∧ op.Exact a.value b.value ∧ op.Ends a.value := by
  rw [h, AddressKind.admits_iff_valid]
  constructor
  · rintro ⟨hP, hvalid, rfl⟩
    exact ⟨hvalid, (hexact v hvalid).2 ⟨hP, rfl⟩⟩
  · rintro ⟨hvalid, hends⟩
    obtain ⟨hP, rfl⟩ := (hexact b.value hvalid).1 hends
    exact ⟨hP, hvalid, rfl⟩

/-- A checked result is an answer, and where there is none there is a bug. -/
theorem Exactly.of_checked {r : Except Bug (Address kind)}
    (hreturns : ∀ b, r = .ok b ↔
      kind.Valid b.value ∧ op.Exact a.value b.value ∧ op.Ends a.value)
    (hrefuses : ∀ b, op.Refuses (.error b)) : op.Exactly a (r.map some) := by
  cases r with
  | error bug =>
    refine ⟨fun b => ?_, fun _ => hrefuses bug⟩
    rw [← hreturns]
    simp [Except.map]
  | ok c =>
    refine ⟨fun b => ?_, fun hnone => absurd rfl (hnone c)⟩
    rw [← hreturns]
    simp [Except.map]

/-- The sum with an answer of its own for where there is none. -/
theorem exactly_add? {a : VirtualAddress} (n : Nat) :
    (AddressOp.add? n).Exactly a (.ok (a.add? n)) := by
  have hreturns : ∀ b, a.add? n = some b ↔ AddressKind.virtual.Valid b.value ∧
      (add? n).Exact a.value b.value ∧ (add? n).Ends a.value := by
    intro b
    rw [Address.add?_eq_some, AddressKind.admits_iff_valid]
    constructor
    · rintro ⟨-, hvalid, rfl⟩
      exact ⟨hvalid, rfl, trivial⟩
    · rintro ⟨hvalid, hexact, -⟩
      have hvalue : b.value = a.value + n := hexact
      rw [← hvalue]
      exact ⟨hvalid.lt_word trivial, hvalid, rfl⟩
  refine ⟨fun b => ?_, fun hnone => ?_⟩
  · rw [← hreturns, Except.ok.injEq]
  · show Except.ok (a.add? n) = .ok none
    cases hsum : a.add? n with
    | none => rfl
    | some b => exact absurd (congrArg Except.ok hsum) (hnone b)

/-- From an address on every operation is exact, unless it is the subtraction that does not
check. -/
theorem exactly_perform (hkind : kind.FitsWord) (ha : kind.Valid a.value)
    (hop : ¬ op.Slips a.value) : op.Exactly a (op.perform a) := by
  cases op with
  | make n =>
    refine .of_checked (returns_iff_of_value (P := True) (v := n) (fun b => ?_) fun m _ => ?_)
      fun b => ⟨b, rfl⟩
    · rw [Address.make_eq_ok, true_and]
    · simp [Exact, Ends]
  | add n =>
    refine .of_checked (returns_iff_of_value (fun b => Address.add_eq_ok) fun m hm => ?_)
      fun b => ⟨b, rfl⟩
    have hword := hm.lt_word hkind
    simp only [Exact, Ends, and_true]
    omega
  | sub n =>
    refine .of_checked (returns_iff_of_value (fun b => Address.sub_eq_ok) fun m _ => ?_)
      fun b => ⟨b, rfl⟩
    simp only [Exact, Ends, and_true]
    omega
  | pageBase =>
    refine .of_checked (r := .ok a.pageBase) (returns_iff_of_value (P := True)
      (v := a.value / pageSize * pageSize) (fun b => ?_) fun m _ => ?_) fun b => ⟨b, rfl⟩
    · have hbase : a.pageBase = ⟨a.value / pageSize * pageSize⟩ :=
        Address.ext a.pageBase_value
      simp [AddressKind.admits_iff_valid, ha.roundDown, hbase, eq_comm]
    · simp only [Exact, Ends, and_true, true_and]
      exact (isGreatest_roundDown a.value).isGreatest_iff_eq.trans eq_comm
  | pageCeil =>
    refine .of_checked (r := a.pageCeil) (returns_iff_of_value
      (fun b => Address.pageCeil_eq_ok) fun m _ => ?_) fun b => ⟨b, rfl⟩
    simp only [Exact, Ends, (isLeast_roundUp a.value).isLeast_iff_eq]
    rw [and_comm, eq_comm]
  | add? n => exact exactly_add? n
  | subOrNull n =>
    have hvalid : AddressKind.virtual.Valid (a.value - n) := not_not.1 hop
    refine .of_checked (r := .ok (Address.subOrNull a n)) (returns_iff_of_value (P := True)
      (v := a.value - n) (fun b => ?_) fun m _ => ?_) fun b => ⟨b, rfl⟩
    · simp [AddressKind.admits_iff_valid, hvalid, Address.subOrNull, eq_comm]
    · simp only [Exact, Ends, and_true, true_and]
      omega

end AddressOp

/-- An operation of a run, with the address it was asked of and the answer. -/
structure AddressStep (kind : AddressKind) where
  before : Address kind
  op : AddressOp kind
  answer : AddressAnswer kind

/-- The address to go on with: the answer, or the old one where there is none. -/
def AddressStep.after {kind : AddressKind} (step : AddressStep kind) : Address kind :=
  match step.answer with
  | .ok (some b) => b
  | _ => step.before

namespace Address

variable {kind : AddressKind} {a : Address kind} {ops : List (AddressOp kind)}

/-- Asks one operation after the other, each of the address that the one before led to. -/
def steps (a : Address kind) : List (AddressOp kind) → List (AddressStep kind)
  | [] => []
  | op :: rest =>
    let step : AddressStep kind := ⟨a, op, op.perform a⟩
    step :: step.after.steps rest

/-- An exact operation on an address leads to an address. -/
theorem valid_after {step : AddressStep kind} (hbefore : kind.Valid step.before.value)
    (hexact : step.op.Exactly step.before step.answer) : kind.Valid step.after.value := by
  unfold AddressStep.after
  split
  · rename_i b hanswer
    exact ((hexact.returns_iff b).1 hanswer).1
  · exact hbefore

/-- Operations on an address lead to addresses only, and to exactly the results that are
addresses, as long as no subtraction that is not checked lands outside of them. -/
theorem steps_exact (hkind : kind.FitsWord) (ha : kind.Valid a.value)
    (hops : ∀ step ∈ a.steps ops, ¬ step.op.Slips step.before.value) :
    ∀ step ∈ a.steps ops, kind.Valid step.before.value ∧ kind.Valid step.after.value ∧
      step.op.Exactly step.before step.answer := by
  induction ops generalizing a with
  | nil => exact fun step hstep => absurd hstep List.not_mem_nil
  | cons op rest ih =>
    obtain ⟨hfirst, hrest⟩ := List.forall_mem_cons.1 hops
    have hexact := AddressOp.exactly_perform hkind ha hfirst
    have hafter : kind.Valid (AddressStep.after ⟨a, op, op.perform a⟩).value :=
      valid_after ha hexact
    exact List.forall_mem_cons.2 ⟨⟨ha, hafter, hexact⟩, ih hafter hrest⟩

/-- A walk along both ends of the upper range: into the hole and over the end, which is refused,
down to its first byte, and past the null address. Then one to the end of the lower range. -/
def edging : List (AddressOp .virtual) :=
  [.pageBase, .sub 0x2000, .add (1 <<< 63), .add? (1 <<< 63), .pageCeil, .subOrNull 0x1000,
    .subOrNull (1 <<< 64 - 1), .make 0x7FFFFFFFFFFF, .pageCeil, .add? 1]

theorem steps_exact_of_edging :
    AddressKind.virtual.Valid 0xFFFF800000001234 ∧
      (∀ step ∈ steps ⟨0xFFFF800000001234⟩ edging, ¬ step.op.Slips step.before.value) ∧
      (∀ step ∈ steps ⟨0xFFFF800000001234⟩ edging, AddressKind.virtual.Valid step.before.value ∧
        AddressKind.virtual.Valid step.after.value ∧
          step.op.Exactly step.before step.answer) ∧
      (steps ⟨0xFFFF800000001234⟩ edging).map (·.after.value) = [0xFFFF800000001000,
        0xFFFF800000001000, 0xFFFF800000001000, 0xFFFF800000001000, 0xFFFF800000001000,
        0xFFFF800000000000, 0, 0x7FFFFFFFFFFF, 0x7FFFFFFFFFFF, 0x7FFFFFFFFFFF] ∧
      ∀ step ∈ steps (⟨0xFFFFFFFFF123⟩ : Address (.physical 48)) [.pageBase, .pageCeil, .add 0x1000],
        step.before.value < 2 ^ 48 ∧ step.after.value < 2 ^ 48 ∧
          step.op.Exactly step.before step.answer := by
  have hstart : AddressKind.virtual.Valid 0xFFFF800000001234 := by decide +kernel
  have hspared : ∀ step ∈ steps ⟨0xFFFF800000001234⟩ edging,
      ¬ step.op.Slips step.before.value := by decide +kernel
  have hphysical : ∀ step ∈ steps (⟨0xFFFFFFFFF123⟩ : Address (.physical 48))
      [.pageBase, .pageCeil, .add 0x1000], ¬ step.op.Slips step.before.value := by decide +kernel
  have hwidth : (AddressKind.physical 48).FitsWord := by
    show 48 ≤ 64
    decide
  exact ⟨hstart, hspared, steps_exact trivial hstart hspared, by decide +kernel,
    steps_exact hwidth (by decide +kernel) hphysical⟩

/-- From the first byte of the upper range the subtraction that is not checked leads into the
hole. -/
theorem subOrNull_slips : AddressKind.virtual.Valid 0xFFFF800000000000 ∧
    AddressOp.perform ⟨0xFFFF800000000000⟩ (.subOrNull 1) =
      .ok (some (⟨0xFFFF7FFFFFFFFFFF⟩ : VirtualAddress)) ∧
    ¬ AddressKind.virtual.Valid 0xFFFF7FFFFFFFFFFF :=
  ⟨by decide +kernel, rfl, by decide +kernel⟩

end Address
end Pager
