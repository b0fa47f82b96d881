import MachDebug.Memory.Vm

/-!
# The regions of an address space

Every address lies in at most one region. A change of protection cuts regions at its bounds: an
address inside the bounds gets the new protection, every other address keeps its own, and no
address is mapped or unmapped.

## Main definitions

* `AddressMap.Aligned g m`: the regions of `m` start and end at multiples of `g`
* `AddressMap.protectionAt m x`: the protection of an address, if it is mapped

## Main results

* `AddressMap.find_eq_some_iff`: an address lies in one region at most
* `AddressMap.next_eq_find`: the region of a mapped address is the next one from there
* `AddressMap.protectionAt_protect`: the protections after a change
* `AddressMap.traitsAt_protect_above`: regions above the change are as before
-/

namespace MachDebug

namespace Region

/-- A region that is one page of sixteen bytes. -/
def page (n : BitVec 60) (protection : VmProt) (grants : VmProt → Bool) : Region where
  start := n.toNat * 16
  size := 2 ^ 4
  protection := protection
  grants := grants
  size_pos := Nat.two_pow_pos 4
  end_le := by omega

/-- The part of a region between two addresses, at an address of both. -/
theorem between_of_contains {r : Region} {lo hi x : ℕ} (prot : VmProt) (hx : r.Contains x)
    (hlo : lo ≤ x) (hhi : x < hi) : ∃ y, r.between lo hi prot = some y ∧ y.Contains x ∧
      y.protection = prot ∧ y.grants = r.grants ∧ y.start + y.size = min (r.start + r.size) hi := by
  obtain ⟨h₁, h₂⟩ := hx
  have hne : max r.start lo < min (r.start + r.size) hi := by omega
  refine ⟨_, dif_pos hne, ⟨?_, ?_⟩, rfl, rfl, ?_⟩
  · exact max_le h₁ hlo
  · show x < max r.start lo + (min (r.start + r.size) hi - max r.start lo)
    omega
  · show max r.start lo + (min (r.start + r.size) hi - max r.start lo) = _
    omega

/-- The part of a cut region at an address of the region: it has the new protection inside the
bounds and the old one outside, and ends with the region when the address is above them. -/
theorem cut_of_contains {r : Region} {x : ℕ} (hx : r.Contains x) (lo hi : ℕ) (prot : VmProt) :
    ∃ y ∈ r.cut lo hi prot, y.Contains x ∧
      y.protection = (if lo ≤ x ∧ x < hi then prot else r.protection) ∧ y.grants = r.grants ∧
      (max lo hi ≤ x → y.start + y.size = r.start + r.size) := by
  have hend := r.end_le
  have hx' := hx.2
  unfold cut
  by_cases hlo : x < lo
  · obtain ⟨y, hy, hc, hp, hg, -⟩ := between_of_contains r.protection hx (Nat.zero_le x) hlo
    refine ⟨y, by simp [hy], hc, ?_, hg, by omega⟩
    rw [hp, if_neg (by omega)]
  · by_cases hhi : x < hi
    · obtain ⟨y, hy, hc, hp, hg, -⟩ := between_of_contains prot hx (not_lt.mp hlo) hhi
      refine ⟨y, by simp [hy], hc, ?_, hg, by omega⟩
      rw [hp, if_pos (by omega)]
    · have habove : max lo hi ≤ x := by omega
      have hbelow : x < 2 ^ 64 := by omega
      obtain ⟨y, hy, hc, hp, hg, he⟩ := between_of_contains r.protection hx habove hbelow
      refine ⟨y, by rw [hy]; simp, hc, ?_, hg, fun _ => by omega⟩
      rw [hp, if_neg (by omega)]

end Region

namespace AddressMap

variable {m : AddressMap} {x : ℕ} {r : Region}

/-- Two regions with a common address are the same one, as the map is sorted. -/
theorem eq_of_contains {y : Region} (hr : r ∈ m.regions) (hy : y ∈ m.regions) (hrx : r.Contains x)
    (hyx : y.Contains x) : r = y := by
  refine List.Pairwise.forall_of_forall_of_flip
    (R := fun r y : Region => r.Contains x → y.Contains x → r = y) (fun _ _ _ _ => rfl)
    (m.sorted.imp fun hbefore h h' => ?_) (m.sorted.imp fun hbefore h h' => ?_) hr hy hrx hyx
  · exact absurd (h.2.trans_le (hbefore.trans h'.1)) (lt_irrefl x)
  · exact absurd (h'.2.trans_le (hbefore.trans h.1)) (lt_irrefl x)

/-- **An address lies in one region at most**: the region found is any that contains it. -/
theorem find_eq_some_iff : m.find x = some r ↔ r ∈ m.regions ∧ r.Contains x := by
  constructor
  · intro h
    exact ⟨List.mem_of_find?_eq_some h, by simpa using List.find?_some h⟩
  · rintro ⟨hmem, hx⟩
    have hsome : (m.find x).isSome := List.find?_isSome.mpr ⟨r, hmem, by simpa using hx⟩
    obtain ⟨y, hy⟩ := Option.isSome_iff_exists.mp hsome
    have hyx : y.Contains x := by simpa using List.find?_some hy
    rw [hy, eq_of_contains (List.mem_of_find?_eq_some hy) hmem hyx hx]

theorem find_eq_none_iff : m.find x = none ↔ ∀ r ∈ m.regions, ¬ r.Contains x := by
  simp [find]

/-- **The region of a mapped address** is the next one from there. -/
theorem next_eq_find (h : m.find x = some r) : m.next x = some r := by
  obtain ⟨hmem, hx⟩ := find_eq_some_iff.mp h
  obtain ⟨regions, hsorted⟩ := m
  unfold next
  simp only at hmem ⊢
  clear h
  induction regions with
  | nil => cases hmem
  | cons y ys ih =>
    rw [List.pairwise_cons] at hsorted
    rcases List.mem_cons.mp hmem with rfl | hmem
    · exact List.find?_cons_of_pos (by simpa using hx.2)
    · have hbelow : y.start + y.size ≤ x := Nat.le_trans (hsorted.1 r hmem) hx.1
      rw [List.find?_cons_of_neg (by simpa using hbelow)]
      exact ih hsorted.2 hmem

/-- The protection of an address, if it is mapped. -/
def protectionAt (m : AddressMap) (x : ℕ) : Option VmProt := (m.find x).map Region.protection

/-- The protection of an address, the protections it can be given, and the end of its region, if it
is mapped. -/
def traitsAt (m : AddressMap) (x : ℕ) : Option (VmProt × (VmProt → Bool) × ℕ) :=
  (m.find x).map fun r => (r.protection, r.grants, r.start + r.size)

/-- The region of a mapped address after a change of protection. -/
theorem find_protect (h : m.find x = some r) (lo hi : ℕ) (prot : VmProt) :
    ∃ y, (m.protect lo hi prot).find x = some y ∧
    y.protection = (if lo ≤ x ∧ x < hi then prot else r.protection) ∧ y.grants = r.grants ∧
    (max lo hi ≤ x → y.start + y.size = r.start + r.size) := by
  obtain ⟨hmem, hx⟩ := find_eq_some_iff.mp h
  obtain ⟨y, hy, hc, hp, hg, he⟩ := Region.cut_of_contains hx lo hi prot
  exact ⟨y, find_eq_some_iff.mpr ⟨List.mem_flatMap.mpr ⟨r, hmem, hy⟩, hc⟩, hp, hg, he⟩

section Protect

variable {lo hi : ℕ} {prot : VmProt}

/-- An address that is not mapped stays so. -/
theorem find_protect_eq_none (h : m.find x = none) : (m.protect lo hi prot).find x = none := by
  rw [find_eq_none_iff] at h ⊢
  intro y hy hyx
  obtain ⟨r, hr, hyr⟩ := List.mem_flatMap.mp hy
  have hinside := Region.mem_cut hyr
  exact h r hr ⟨hinside.1.trans hyx.1, hyx.2.trans_le hinside.2⟩

/-- The region that is found after a change of protection is a part of the one from before. -/
theorem find_of_find_protect {y : Region} (h : (m.protect lo hi prot).find x = some y) :
    ∃ r, m.find x = some r ∧ r.start ≤ y.start ∧ y.start + y.size ≤ r.start + r.size ∧
      y.protection = (if lo ≤ x ∧ x < hi then prot else r.protection) ∧ y.grants = r.grants ∧
      (max lo hi ≤ x → y.start + y.size = r.start + r.size) := by
  obtain ⟨hmem, hyx⟩ := find_eq_some_iff.mp h
  obtain ⟨r, hr, hyr⟩ := List.mem_flatMap.mp hmem
  have hinside := Region.mem_cut hyr
  have hfind : m.find x = some r :=
    find_eq_some_iff.mpr ⟨hr, hinside.1.trans hyx.1, hyx.2.trans_le hinside.2⟩
  obtain ⟨z, hz, htraits⟩ := find_protect hfind lo hi prot
  obtain rfl : y = z := Option.some.inj (h.symm.trans hz)
  exact ⟨r, hfind, hinside.1, hinside.2, htraits⟩

/-- **The protections after a change**: new inside the bounds, as before outside. -/
theorem protectionAt_protect (m : AddressMap) (lo hi x : ℕ) (prot : VmProt) :
    (m.protect lo hi prot).protectionAt x =
      if lo ≤ x ∧ x < hi then (m.protectionAt x).map fun _ => prot else m.protectionAt x := by
  unfold protectionAt
  cases h : m.find x with
  | none => simp [find_protect_eq_none h]
  | some r =>
    obtain ⟨y, hy, hp, -⟩ := find_protect h lo hi prot
    rw [hy, Option.map_some, hp]
    split <;> rfl

/-- The addresses above a change have their protection, their grants and their region's end. -/
theorem traitsAt_protect_above (hlo : lo ≤ hi) (hx : hi ≤ x) :
    (m.protect lo hi prot).traitsAt x = m.traitsAt x := by
  unfold traitsAt
  cases h : m.find x with
  | none => simp [find_protect_eq_none h]
  | some r =>
    obtain ⟨y, hy, hp, hg, he⟩ := find_protect h lo hi prot
    rw [hy, Option.map_some, Option.map_some, hp, hg, he (by omega), if_neg (by omega)]

end Protect

/-! ## Pages -/

/-- The regions start and end at multiples of the page size. -/
def Aligned (g : ℕ) (m : AddressMap) : Prop :=
  ∀ r ∈ m.regions, g ∣ r.start ∧ g ∣ r.start + r.size

/-- The addresses of a page lie in one region. -/
theorem Aligned.find_congr {g x y : ℕ} (h : m.Aligned g) (hg : 0 < g) (hxy : x / g = y / g) :
    m.find x = m.find y := by
  have hcontains (r : Region) (hr : r ∈ m.regions) : r.Contains x ↔ r.Contains y := by
    obtain ⟨⟨c, hc⟩, d, hd⟩ := h r hr
    simp only [Region.Contains, hd]
    rw [hc, Nat.mul_comm g c, Nat.mul_comm g d, ← Nat.le_div_iff_mul_le hg,
      ← Nat.le_div_iff_mul_le hg, ← Nat.div_lt_iff_lt_mul hg, ← Nat.div_lt_iff_lt_mul hg, hxy]
  apply Option.ext
  intro r
  simp only [find_eq_some_iff]
  constructor
  · rintro ⟨hr, hx⟩
    exact ⟨hr, (hcontains r hr).mp hx⟩
  · rintro ⟨hr, hy⟩
    exact ⟨hr, (hcontains r hr).mpr hy⟩

/-- A part of a region between two page boundaries starts and ends at page boundaries. -/
theorem dvd_of_mem_between {g lo hi : ℕ} {y : Region} {prot : VmProt}
    (hr : g ∣ r.start ∧ g ∣ r.start + r.size) (hlo : g ∣ lo) (hhi : g ∣ min (r.start + r.size) hi)
    (hy : y ∈ (r.between lo hi prot).toList) : g ∣ y.start ∧ g ∣ y.start + y.size := by
  unfold Region.between at hy
  split at hy
  · rename_i hne
    simp only [Option.toList_some, List.mem_singleton] at hy
    subst hy
    have hstart : g ∣ max r.start lo := by
      rcases max_cases r.start lo with ⟨h, -⟩ | ⟨h, -⟩ <;> rw [h]
      · exact hr.1
      · exact hlo
    refine ⟨hstart, ?_⟩
    simp only
    rwa [Nat.add_sub_cancel' hne.le]
  · simp at hy

/-- A change of protection of whole pages keeps the regions at page boundaries. -/
theorem Aligned.protect {g lo hi : ℕ} (h : m.Aligned g) (hlo : g ∣ lo) (hhi : g ∣ hi)
    (prot : VmProt) : (m.protect lo hi prot).Aligned g := by
  intro y hy
  obtain ⟨r, hr, hyr⟩ := List.mem_flatMap.mp hy
  have hmin {e : ℕ} (he : g ∣ e) : g ∣ min (r.start + r.size) e := by
    rcases min_cases (r.start + r.size) e with ⟨h', -⟩ | ⟨h', -⟩ <;> rw [h']
    · exact (h r hr).2
    · exact he
  simp only [Region.cut, List.mem_append] at hyr
  rcases hyr with (hyr | hyr) | hyr
  · exact dvd_of_mem_between (h r hr) (dvd_zero g) (hmin hlo) hyr
  · exact dvd_of_mem_between (h r hr) hlo (hmin hhi) hyr
  · refine dvd_of_mem_between (h r hr) ?_ ?_ hyr
    · rcases max_cases lo hi with ⟨h', -⟩ | ⟨h', -⟩ <;> rw [h'] <;> assumption
    · rw [min_eq_left r.end_le]
      exact (h r hr).2

end AddressMap

namespace Vm

variable (v : Vm)

theorem truncPage_le (a : ℕ) : v.truncPage a ≤ a := Nat.div_mul_le_self _ _

theorem dvd_truncPage (a : ℕ) : v.granularity ∣ v.truncPage a := Dvd.intro_left _ rfl

theorem dvd_roundPage (a : ℕ) : v.granularity ∣ v.roundPage a := Dvd.intro_left _ rfl

/-- A page boundary below an address is not above the start of its page. -/
theorem le_truncPage {a b : ℕ} (h : v.granularity ∣ b) (hb : b ≤ a) : b ≤ v.truncPage a := by
  obtain ⟨c, rfl⟩ := h
  rcases Nat.eq_zero_or_pos v.granularity with hg | hg
  · simp [hg]
  · have hc : c ≤ a / v.granularity := (Nat.le_div_iff_mul_le hg).mpr (by rwa [Nat.mul_comm])
    rw [Nat.mul_comm]
    exact Nat.mul_le_mul_right _ hc

/-- An address is not above the end of its page. -/
theorem le_roundPage (hg : 0 < v.granularity) (a : ℕ) : a ≤ v.roundPage a := by
  have hdiv := Nat.div_add_mod (a + v.granularity - 1) v.granularity
  have hmod := Nat.mod_lt (a + v.granularity - 1) hg
  rw [Nat.mul_comm] at hdiv
  rw [roundPage, truncPage]
  omega

/-- A page boundary above an address is not below the end of its page. -/
theorem roundPage_le {a b : ℕ} (hg : 0 < v.granularity) (h : v.granularity ∣ b) (hb : a ≤ b) :
    v.roundPage a ≤ b := by
  have hlt : v.roundPage a ≤ a + v.granularity - 1 := v.truncPage_le _
  obtain ⟨c, rfl⟩ := h
  obtain ⟨d, hd⟩ := v.dvd_roundPage a
  rw [hd] at hlt ⊢
  have hcd : d < c + 1 := by
    refine Nat.lt_of_mul_lt_mul_left (a := v.granularity) ?_
    rw [Nat.mul_add]
    omega
  exact Nat.mul_le_mul_left _ (by omega)

end Vm

end MachDebug
