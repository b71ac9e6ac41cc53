import Mathlib
import ClassLang.Registry.Overloads

open private Nat.nextPowerOfTwo.go from Init.Data.Nat.Power2.Basic

namespace ClassLang.Hashing

theorem le_nextPowerOfTwo_go (n p : Nat) (h : p > 0) : n ≤ Nat.nextPowerOfTwo.go n p h := by
  fun_induction Nat.nextPowerOfTwo.go n p h with
  | case1 p h hlt ih => exact ih
  | case2 p h hge => omega

theorem le_nextPowerOfTwo (n : Nat) : n ≤ n.nextPowerOfTwo := by
  rw [Nat.nextPowerOfTwo.eq_def]
  exact le_nextPowerOfTwo_go n 1 _

theorem le_bucketsFor (cap : Nat) : cap ≤ bucketsFor cap := by
  unfold bucketsFor
  split_ifs with h₄ h₈ h₁₅
  · omega
  · omega
  · omega
  · have h : cap ≤ cap * 8 / 7 := (Nat.le_div_iff_mul_le (by decide)).mpr (by omega)
    exact h.trans (le_nextPowerOfTwo _)

namespace Buckets

variable {α : Type} {t : Buckets α}

theorem filterMap_set_none (x : UInt64 × α) :
    ∀ (l : List (Option (UInt64 × α))) (i : Nat), l[i]? = some none →
      ((l.set i (some x)).filterMap id).Perm (x :: l.filterMap id)
  | [], _, h => by cases h
  | none :: l, 0, _ => by simp
  | some _ :: _, 0, h => by cases h
  | y :: l, i + 1, h => by
    have ih := filterMap_set_none x l i (by simpa using h)
    cases y with
    | none => simpa using ih
    | some z => simpa using (ih.cons z).trans (List.Perm.swap x z _)

theorem count_eq_length_entries (t : Buckets α) : t.count = t.entries.length := by
  unfold count entries
  induction t.slots with
  | nil => rfl
  | cons y l ih => cases y <;> simp [ih]

theorem exists_free (h : t.count < t.size) : ∃ i < t.size, t.isFree i = true := by
  unfold count size at h
  obtain ⟨y, hy, hn⟩ := List.length_filter_lt_length_iff_exists.mp h
  obtain ⟨i, hi, rfl⟩ := List.mem_iff_getElem.mp hy
  refine ⟨i, hi, ?_⟩
  simpa [isFree, List.getD_eq_getElem?_getD, hi] using hn

theorem firstFree?_zero (hs : t.size < groupWidth) {f : Nat} (hf : f < t.size)
    (hfree : t.isFree f = true) : ∃ i, t.firstFree? 0 = some i ∧ i < t.size ∧ t.isFree i = true := by
  have hc : ∀ q < t.size, t.controlFree q = t.isFree q := fun q hq ↦ by
    simp [controlFree, hs, hq]
  cases hfind : t.firstFree? 0 with
  | none =>
    have := List.find?_range_eq_none.mp hfind f (by omega)
    simp [hc f hf, hfree] at this
  | some i =>
    obtain ⟨hi, -, hbefore⟩ := List.find?_range_eq_some.mp hfind
    have hif : i ≤ f := by
      by_contra hlt
      have := hbefore f (by omega)
      simp [hc f hf, hfree] at this
    refine ⟨i, rfl, by omega, ?_⟩
    simpa [hc i (by omega)] using hi

theorem settle_free (hf : ∃ f < t.size, t.isFree f = true) {q : Nat}
    (hq : t.controlFree q = true) : t.settle q < t.size ∧ t.isFree (t.settle q) = true := by
  obtain ⟨f, hf, hfree⟩ := hf
  have hpos : 0 < t.size := by omega
  unfold settle
  by_cases hown : t.isFree (q % t.size) = true
  · rw [if_pos hown]
    exact ⟨Nat.mod_lt _ hpos, hown⟩
  · simp only [hown, Bool.false_eq_true, if_false]
    -- only a padding position of a small table can show an empty bucket that is taken
    have hs : t.size < groupWidth := by
      by_contra hbig
      simp [controlFree, hbig, hown] at hq
    obtain ⟨i, hi, hlt, hifree⟩ := firstFree?_zero hs hf hfree
    simp only [hi, Option.getD_some, Nat.mod_eq_of_lt hlt]
    exact ⟨hlt, hifree⟩

theorem probe_free (hf : ∃ f < t.size, t.isFree f = true) :
    ∀ (fuel pos stride : Nat) {j : Nat}, t.probe pos stride fuel = some j →
      j < t.size ∧ t.isFree j = true
  | 0, _, _, _, h => by cases h
  | fuel + 1, pos, stride, j, h => by
    rw [probe] at h
    split at h
    · next i hi =>
      cases h
      exact settle_free hf (List.find?_range_eq_some.mp hi).1
    · exact probe_free hf fuel _ _ h

theorem slotFor_free (h : t.count < t.size) (hash : UInt64) :
    t.slotFor hash < t.size ∧ t.isFree (t.slotFor hash) = true := by
  have hf := exists_free h
  unfold slotFor
  split
  · next j hj => exact probe_free hf _ _ _ hj
  · obtain ⟨f, hfs, hff⟩ := hf
    cases hfind : (List.range t.size).find? t.isFree with
    | none =>
      have := List.find?_range_eq_none.mp hfind f hfs
      simp [hff] at this
    | some i =>
      obtain ⟨hi, hmem, -⟩ := List.find?_range_eq_some.mp hfind
      exact ⟨List.mem_range.mp hmem, hi⟩

@[simp] theorem size_place (t : Buckets α) (hash : UInt64) (a : α) :
    (t.place hash a).size = t.size := by
  simp [place, size]

theorem entries_place (h : t.count < t.size) (hash : UInt64) (a : α) :
    (t.place hash a).entries.Perm ((hash, a) :: t.entries) := by
  obtain ⟨hlt, hfree⟩ := slotFor_free h hash
  apply filterMap_set_none
  have hfree' : (t.slots.getD (t.slotFor hash) none).isNone = true := hfree
  simp only [size] at hlt
  rw [List.getD_eq_getElem?_getD, List.getElem?_eq_getElem hlt] at hfree'
  simp only [Option.getD_some, Option.isNone_iff_eq_none] at hfree'
  rw [List.getElem?_eq_getElem hlt, hfree']

theorem entries_foldl_place {f : Buckets α → UInt64 × α → Buckets α}
    (hf : ∀ u p, f u p = u.place p.1 p.2) :
    ∀ (l : List (UInt64 × α)) (u : Buckets α), u.count + l.length ≤ u.size →
      (l.foldl f u).entries.Perm (l.reverse ++ u.entries) ∧ (l.foldl f u).size = u.size
  | [], u, _ => by simp
  | p :: l, u, hroom => by
    have hfree : u.count < u.size := by simp at hroom; omega
    have hp := entries_place hfree p.1 p.2
    have hcount : (u.place p.1 p.2).count = u.count + 1 := by
      rw [count_eq_length_entries, hp.length_eq, count_eq_length_entries]; rfl
    obtain ⟨ih, hsize⟩ := entries_foldl_place hf l (f u p)
      (by simp only [List.length_cons] at hroom; rw [hf, hcount, size_place]; omega)
    refine ⟨ih.trans ?_, by rw [List.foldl_cons, hsize, hf, size_place]⟩
    rw [hf]
    simpa using hp.append_left l.reverse

theorem capacityOf_le (n : Nat) : capacityOf n ≤ n := by
  unfold capacityOf
  split <;> omega

@[simp] theorem count_empty (n : Nat) : (empty n : Buckets α).count = 0 := by
  simp [empty, count]

@[simp] theorem size_empty (n : Nat) : (empty n : Buckets α).size = n := by
  simp [empty, size]

theorem grow_spec (t : Buckets α) : t.grow.entries.Perm t.entries ∧ t.grow.count < t.grow.size := by
  have hroom : t.count < bucketsFor (max (t.count + 1) (capacityOf t.size + 1)) :=
    Nat.lt_of_lt_of_le (by omega) (le_bucketsFor _)
  obtain ⟨hperm, hsize⟩ := entries_foldl_place (fun _ _ ↦ rfl) t.entries
    (empty (bucketsFor (max (t.count + 1) (capacityOf t.size + 1))))
    (by rw [count_empty, size_empty, ← count_eq_length_entries]; omega)
  have hnil : (empty (bucketsFor (max (t.count + 1) (capacityOf t.size + 1))) : Buckets α).entries
      = [] := by simp [entries, empty]
  rw [hnil, List.append_nil] at hperm
  have hperm' : t.grow.entries.Perm t.entries := hperm.trans (List.reverse_perm _)
  refine ⟨hperm', ?_⟩
  rw [count_eq_length_entries, hperm'.length_eq, ← count_eq_length_entries]
  exact (show t.grow.size = _ from hsize.trans (size_empty _)) ▸ hroom

theorem entries_insert (t : Buckets α) (hash : UInt64) (a : α) :
    (t.insert hash a).entries.Perm ((hash, a) :: t.entries) := by
  unfold insert
  split
  · next hcap => exact entries_place (Nat.lt_of_lt_of_le hcap (capacityOf_le _)) hash a
  · obtain ⟨hperm, hroom⟩ := grow_spec t
    exact (entries_place hroom hash a).trans (hperm.cons _)

theorem entries_foldl_insert {f : Buckets α → UInt64 × α → Buckets α}
    (hf : ∀ u p, f u p = u.insert p.1 p.2) :
    ∀ (l : List (UInt64 × α)) (u : Buckets α), (l.foldl f u).entries.Perm (l.reverse ++ u.entries)
  | [], u => by simp
  | p :: l, u => by
    refine (entries_foldl_insert hf l (f u p)).trans ?_
    rw [hf]
    simpa using (entries_insert u p.1 p.2).append_left l.reverse

theorem toList_ofList_perm (xs : List (UInt64 × α)) : (ofList xs).toList.Perm (xs.map (·.2)) := by
  have h := entries_foldl_insert (fun _ _ ↦ rfl) xs ({} : Buckets α)
  rw [show ({} : Buckets α).entries = [] from rfl, List.append_nil] at h
  have h' : (ofList xs).entries.Perm xs := h.trans (List.reverse_perm xs)
  exact h'.map _

end Buckets

end ClassLang.Hashing

namespace ClassLang

theorem ClassInfo.ctorsInBucketOrder_perm (c : ClassInfo) : c.ctorsInBucketOrder.Perm c.ctors := by
  have h := Hashing.Buckets.toList_ofList_perm (c.ctors.map fun k ↦ (k.sig.hash, k))
  simpa [ClassInfo.ctorsInBucketOrder, Function.comp_def] using h

end ClassLang
