import Mathlib.Data.List.Basic
import Mathlib.Data.BitVec

/-!
# Exception-port tables

A task has one exception action (a port, a behaviour and a flavor) for each exception type. The
kernel assigns the types of a mask at once, and reports the actions of a mask as entries that
group the types with a common action. How it groups them is left open: only the documented
properties of the entries are used.

## Main definitions

* `PortTable`: the exception actions of a task, by exception type
* `PortTable.assign`: `task_set_exception_ports`
* `ExcPortSupport`: the masks a kernel accepts, and its grouping for `task_get_exception_ports`

## Main results

* `PortTable.assignAll_apply`: assigning entries that all record one table
* `ExcPortSupport.assignAll_group`: assigning back the entries of a mask restores that mask
-/

namespace MachDebug

/-- A Mach port name; `0` is the null port. -/
abbrev Port := ℕ

/-- A `kern_return_t`, or an `errno` value; `0` is success. -/
abbrev KernReturn := BitVec 32

/-- A set of exception types, one bit each. -/
abbrev ExceptionMask := BitVec 32

/-- `EXC_TYPES_COUNT`. -/
def excTypesCount : ℕ := 14

/-- The exception action of one exception type. -/
structure ExcAction where
  port : Port
  behavior : BitVec 32
  flavor : BitVec 32
  deriving DecidableEq

/-- One entry of the arrays that `task_get_exception_ports` fills. -/
structure PortEntry where
  mask : ExceptionMask
  action : ExcAction
  deriving DecidableEq

/-- The exception actions of a task, by exception type. -/
abbrev PortTable := ℕ → ExcAction

/-- A mask all of whose types are valid is accepted. -/
theorem and_valid_of_subset {m v : ExceptionMask}
    (h : ∀ e, m.getLsbD e = true → v.getLsbD e = true) : m &&& v = m := by
  refine BitVec.eq_of_getLsbD_eq ?_
  intro e _
  rw [BitVec.getLsbD_and]
  by_cases hm : m.getLsbD e = true
  · simp [hm, h e hm]
  · simp [hm]

theorem subset_of_and_valid {m v : ExceptionMask} (h : m &&& v = m) {e : ℕ}
    (hm : m.getLsbD e = true) : v.getLsbD e = true := by
  rw [← h, BitVec.getLsbD_and, Bool.and_eq_true] at hm
  exact hm.2

namespace PortTable

/-- `task_set_exception_ports`: exactly the types of the mask get the action. -/
def assign (t : PortTable) (mask : ExceptionMask) (a : ExcAction) : PortTable :=
  fun e => if mask.getLsbD e then a else t e

/-- Assign one entry after the other. -/
def assignAll (t : PortTable) (entries : List PortEntry) : PortTable :=
  entries.foldl (fun t x => t.assign x.mask x.action) t

@[simp] theorem assign_apply (t : PortTable) (mask : ExceptionMask) (a : ExcAction) (e : ℕ) :
    t.assign mask a e = if mask.getLsbD e then a else t e := rfl

@[simp] theorem assignAll_nil (t : PortTable) : t.assignAll [] = t := rfl

@[simp] theorem assignAll_cons (t : PortTable) (x : PortEntry) (xs : List PortEntry) :
    t.assignAll (x :: xs) = (t.assign x.mask x.action).assignAll xs := rfl

/-- Assigning entries that all record the table `s` gives their types the actions of `s`, and
leaves every other type alone. -/
theorem assignAll_apply {s : PortTable} {entries : List PortEntry}
    (h : ∀ x ∈ entries, ∀ e, x.mask.getLsbD e = true → s e = x.action) (t : PortTable) (e : ℕ) :
    t.assignAll entries e = if ∃ x ∈ entries, x.mask.getLsbD e = true then s e else t e := by
  induction entries generalizing t with
  | nil => simp
  | cons x xs ih =>
    rw [assignAll_cons, ih (fun y hy => h y (List.mem_cons_of_mem x hy))]
    by_cases hxs : ∃ y ∈ xs, y.mask.getLsbD e = true
    · simp [hxs]
    · by_cases hx : x.mask.getLsbD e = true
      · simp [hxs, hx, h x List.mem_cons_self e hx]
      · simp [hxs, hx]

end PortTable

/-- What a kernel's `task_get_exception_ports` supports: the masks it accepts, and the entries it
returns for an accepted mask. The entries are at most `EXC_TYPES_COUNT`, with disjoint masks that
cover exactly the requested mask, and each carries the common action of its types. -/
structure ExcPortSupport where
  valid : ExceptionMask
  group : PortTable → ExceptionMask → List PortEntry
  length_le : ∀ t m, m &&& valid = m → (group t m).length ≤ excTypesCount
  disjoint : ∀ t m, m &&& valid = m → (group t m).Pairwise fun x y => x.mask &&& y.mask = 0
  cover : ∀ t m, m &&& valid = m → ∀ e,
    m.getLsbD e = true ↔ ∃ x ∈ group t m, x.mask.getLsbD e = true
  common : ∀ t m, m &&& valid = m → ∀ x ∈ group t m, ∀ e, x.mask.getLsbD e = true → t e = x.action

namespace ExcPortSupport

variable (K : ExcPortSupport)

/-- **Assigning back the entries of an accepted mask** restores the types of the mask. -/
theorem assignAll_group {m : ExceptionMask} (hm : m &&& K.valid = m) (s t : PortTable) (e : ℕ) :
    t.assignAll (K.group s m) e = if m.getLsbD e then s e else t e := by
  rw [PortTable.assignAll_apply (K.common s m hm)]
  simp only [K.cover s m hm e]

/-- The entries of an accepted mask are accepted one by one. -/
theorem group_mask_valid {t : PortTable} {m : ExceptionMask} (hm : m &&& K.valid = m)
    {x : PortEntry} (hx : x ∈ K.group t m) : x.mask &&& K.valid = x.mask :=
  and_valid_of_subset fun e he => subset_of_and_valid hm ((K.cover t m hm e).mpr ⟨x, hx, he⟩)

/-- A kernel that reports every exception type of the mask in an entry of its own. -/
def singletons : ExcPortSupport where
  valid := 0x3FFE#32
  group t m := ((List.range excTypesCount).filter fun e => m.getLsbD e).map
    fun e => ⟨BitVec.twoPow 32 e, t e⟩
  length_le t m _ := by
    simpa using List.length_filter_le (fun e => m.getLsbD e) (List.range excTypesCount)
  disjoint t m _ := by
    refine List.pairwise_map.mpr ((List.nodup_range.filter _).imp fun {a b} hab => ?_)
    ext i
    simp only [BitVec.getElem_and, BitVec.getElem_twoPow]
    rcases eq_or_ne i a with rfl | hi
    · simp [hab]
    · simp [hi]
  cover t m hm e := by
    have hlt : m.getLsbD e = true → e < excTypesCount := by
      intro he
      rw [← hm, BitVec.getLsbD_and, Bool.and_eq_true] at he
      by_contra hge
      have hpow : 0x3FFE < 2 ^ e :=
        lt_of_lt_of_le (by decide) (Nat.pow_le_pow_right (by decide) (Nat.le_of_not_lt hge))
      simp [BitVec.getLsbD_ofNat, Nat.testBit_lt_two_pow hpow] at he
    constructor
    · intro he
      refine ⟨_, List.mem_map_of_mem (List.mem_filter.mpr ⟨List.mem_range.mpr (hlt he), he⟩), ?_⟩
      have : e < 32 := lt_trans (hlt he) (by decide)
      simp [this]
    · rintro ⟨x, hx, he⟩
      obtain ⟨a, ha, rfl⟩ := List.mem_map.mp hx
      obtain ⟨-, rfl⟩ : a < 32 ∧ a = e := by simpa [BitVec.getLsbD_twoPow] using he
      exact (List.mem_filter.mp ha).2
  common t m _ x hx e he := by
    obtain ⟨a, -, rfl⟩ := List.mem_map.mp hx
    obtain ⟨-, rfl⟩ : a < 32 ∧ a = e := by simpa [BitVec.getLsbD_twoPow] using he
    rfl

end ExcPortSupport

end MachDebug
