import ClassLang.Registry.Hierarchy
import Mathlib.Logic.Relation
import Mathlib.Data.List.Perm.Subperm
import Mathlib.Data.List.Nodup

namespace ClassLang.Hierarchy

open ClassLang

def Edge (par : Nat → Option Nat) (a b : Nat) : Prop := par a = some b

def Bounded (n : Nat) (par : Nat → Option Nat) : Prop := ∀ i j, par i = some j → i < n ∧ j < n

def Acyclic (par : Nat → Option Nat) : Prop := ∀ x, ¬ Relation.TransGen (Edge par) x x

variable {par : Nat → Option Nat} {n : Nat}

theorem contains_eq_false {l : List Nat} {x : Nat} : l.contains x = false ↔ x ∉ l := by
  rw [← List.contains_iff_mem]
  simp

theorem mem_of_length_ge {seen : List Nat} (hn : seen.Nodup) (hb : ∀ x ∈ seen, x < n)
    (hl : n ≤ seen.length) {i : Nat} (hi : i < n) : i ∈ seen := by
  by_contra h
  have hsub : seen ⊆ (List.range n).erase i := by
    intro x hx
    have hxi : x ≠ i := by
      rintro rfl
      exact h hx
    exact (List.mem_erase_of_ne hxi).mpr (List.mem_range.mpr (hb x hx))
  have hle := (hn.subperm hsub).length_le
  rw [List.length_erase_of_mem (List.mem_range.mpr hi), List.length_range] at hle
  omega

section Walk

theorem walk_error : ∀ {fuel : Nat} {seen : List Nat} {i j : Nat},
    walk par fuel seen i = .error j → par j = some j
  | 0, _, _, _, h => by cases h
  | fuel + 1, seen, i, j, h => by
    unfold walk at h
    split at h
    · cases h
    · rename_i p hp
      by_cases hpi : p = i
      · rw [if_pos hpi] at h
        cases h
        rw [hp, hpi]
      · rw [if_neg hpi] at h
        split at h
        · cases h
        · split at h
          · cases h
          · cases h
            exact walk_error ‹_›

theorem walk_ok : ∀ {fuel : Nat} {seen : List Nat} {i : Nat} {path seen' : List Nat},
    i ∉ seen → walk par fuel seen i = .ok (path, seen') →
    seen' = path.reverse ++ seen ∧ path.Nodup ∧
      ∀ x ∈ path, x ∉ seen ∧ Relation.ReflTransGen (Edge par) i x ∧ par x ≠ some x
  | 0, _, _, _, _, _, h => by
    cases h
    simp
  | fuel + 1, seen, i, path, seen', hi, h => by
    unfold walk at h
    split at h
    · rename_i hp
      cases h
      refine ⟨rfl, by simp, ?_⟩
      simp only [List.mem_singleton, forall_eq, hp]
      exact ⟨hi, .refl, nofun⟩
    · rename_i p hp
      by_cases hpi : p = i
      · rw [if_pos hpi] at h
        cases h
      rw [if_neg hpi] at h
      split at h
      · cases h
        refine ⟨rfl, by simp, ?_⟩
        simp only [List.mem_singleton, forall_eq, hp]
        exact ⟨hi, .refl, fun e ↦ hpi (Option.some.inj e)⟩
      rename_i hps
      split at h
      · rename_i path' seen'' hw
        cases h
        have hp' : p ∉ i :: seen := by
          simp only [List.mem_cons, not_or]
          exact ⟨hpi, by simpa [contains_eq_false] using hps⟩
        obtain ⟨hs, hnd, hx⟩ := walk_ok hp' hw
        refine ⟨by simp [hs], List.nodup_cons.mpr ⟨fun hm ↦ (hx i hm).1 List.mem_cons_self, hnd⟩,
          ?_⟩
        intro x hxm
        rcases List.mem_cons.mp hxm with rfl | hxm
        · exact ⟨hi, .refl, by rw [hp]; exact fun e ↦ hpi (Option.some.inj e)⟩
        · obtain ⟨hxs, hr, hl⟩ := hx x hxm
          exact ⟨fun e ↦ hxs (List.mem_cons_of_mem _ e), .head hp hr, hl⟩
      · cases h

theorem walk_closed (hb : Bounded n par) : ∀ {fuel : Nat} {seen : List Nat} {i : Nat}
    {path seen' : List Nat}, seen.Nodup → (∀ x ∈ seen, x < n) → i < n → i ∉ seen →
    n ≤ fuel + seen.length → walk par fuel seen i = .ok (path, seen') →
    i ∈ path ∧ ∀ x ∈ path, ∀ q, par x = some q → q ∈ seen'
  | 0, seen, i, _, _, hn, hlt, hi, his, hl, _ => by
    -- no fuel left means every class is seen, the start too
    exact absurd (mem_of_length_ge hn hlt (by omega) hi) his
  | fuel + 1, seen, i, path, seen', hn, hlt, hi, his, hl, h => by
    unfold walk at h
    split at h
    · rename_i hp
      cases h
      refine ⟨List.mem_singleton_self i, ?_⟩
      simp [hp]
    · rename_i p hp
      by_cases hpi : p = i
      · rw [if_pos hpi] at h
        cases h
      rw [if_neg hpi] at h
      split at h
      · rename_i hps
        cases h
        refine ⟨List.mem_singleton_self i, ?_⟩
        simp only [List.mem_singleton, forall_eq, hp, Option.some.injEq, forall_eq']
        exact List.mem_cons_of_mem _ (List.contains_iff_mem.mp hps)
      rename_i hps
      split at h
      · rename_i path' seen'' hw
        cases h
        have hpn : p ∉ seen := by simpa [contains_eq_false] using hps
        have hp' : p ∉ i :: seen := by
          simp only [List.mem_cons, not_or]
          exact ⟨hpi, hpn⟩
        have hpl : p < n := (hb i p hp).2
        have hn' : (i :: seen).Nodup := List.nodup_cons.mpr ⟨his, hn⟩
        have hlt' : ∀ x ∈ i :: seen, x < n := by
          intro x hx
          rcases List.mem_cons.mp hx with rfl | hx
          · exact hi
          · exact hlt x hx
        obtain ⟨hpm, hc⟩ := walk_closed hb hn' hlt' hpl hp' (by simp; omega) hw
        refine ⟨List.mem_cons_self, ?_⟩
        intro x hx q hq
        rcases List.mem_cons.mp hx with rfl | hx
        · rw [hp, Option.some.injEq] at hq
          subst hq
          rw [(walk_ok hp' hw).1]
          exact List.mem_append_left _ (List.mem_reverse.mpr hpm)
        · exact hc x hx q hq
      · cases h

theorem walk_pairwise (hac : Acyclic par) : ∀ {fuel : Nat} {seen : List Nat} {i : Nat}
    {path seen' : List Nat}, i ∉ seen → walk par fuel seen i = .ok (path, seen') →
    path.Pairwise (fun a b ↦ par b ≠ some a)
  | 0, _, _, _, _, _, h => by
    cases h
    exact List.Pairwise.nil
  | fuel + 1, seen, i, path, seen', hi, h => by
    unfold walk at h
    split at h
    · cases h
      exact List.pairwise_singleton _ _
    · rename_i p hp
      by_cases hpi : p = i
      · rw [if_pos hpi] at h
        cases h
      rw [if_neg hpi] at h
      split at h
      · cases h
        exact List.pairwise_singleton _ _
      rename_i hps
      split at h
      · rename_i path' seen'' hw
        cases h
        have hp' : p ∉ i :: seen := by
          simp only [List.mem_cons, not_or]
          exact ⟨hpi, by simpa [contains_eq_false] using hps⟩
        refine List.pairwise_cons.mpr ⟨fun b hb hbi ↦ ?_, walk_pairwise hac hp' hw⟩
        -- the walk went on from the parent `p`, so `b` above `p` having parent `i` closes a cycle
        have hr := ((walk_ok hp' hw).2.2 b hb).2.1
        exact hac i (Relation.TransGen.trans_left (.single hp) (hr.tail hbi))
      · cases h

end Walk

theorem mem_walk {fuel : Nat} {seen : List Nat} {i : Nat} {path seen' : List Nat}
    (h : walk par (fuel + 1) seen i = .ok (path, seen')) : i ∈ path := by
  unfold walk at h
  split at h
  · cases h
    exact List.mem_singleton_self i
  · split at h
    · cases h
    · split at h
      · cases h
        exact List.mem_singleton_self i
      · split at h
        · cases h
          exact List.mem_cons_self
        · cases h

theorem reach_lt (hb : Bounded n par) {i x : Nat} (hr : Relation.ReflTransGen (Edge par) i x)
    (hi : i < n) : x < n := by
  induction hr with
  | refl => exact hi
  | tail _ he _ => exact (hb _ _ he).2

section FirstRound

theorem finishOrder_error : ∀ {todo seen done : List Nat} {j : Nat},
    finishOrder par n todo seen done = .error j → par j = some j
  | [], _, _, _, h => by cases h
  | i :: todo, seen, done, j, h => by
    unfold finishOrder at h
    split at h
    · exact finishOrder_error h
    · split at h
      · exact finishOrder_error h
      · cases h
        exact walk_error ‹_›

theorem finishOrder_meets : ∀ {todo seen done done' : List Nat}, (∀ x, x ∈ seen ↔ x ∈ done) →
    (∀ x ∈ done, par x ≠ some x) → (∀ i ∈ todo, i < n) →
    finishOrder par n todo seen done = .ok done' →
    (∀ i ∈ todo, i ∈ done') ∧ (∀ x ∈ done, x ∈ done') ∧ ∀ x ∈ done', par x ≠ some x
  | [], _, _, _, _, hl, _, h => by
    cases h
    exact ⟨nofun, fun _ hx ↦ hx, hl⟩
  | i :: todo, seen, done, done', hs, hl, hlt, h => by
    have hlt' : ∀ k ∈ todo, k < n := fun k hk ↦ hlt k (List.mem_cons_of_mem _ hk)
    unfold finishOrder at h
    split at h
    · rename_i hi
      obtain ⟨hm, hd, hl'⟩ := finishOrder_meets hs hl hlt' h
      refine ⟨fun k hk ↦ ?_, hd, hl'⟩
      rcases List.mem_cons.mp hk with rfl | hk
      · exact hd k ((hs k).mp (List.contains_iff_mem.mp hi))
      · exact hm k hk
    · rename_i hi
      split at h
      · rename_i path seen₁ hw
        have hin : i ∉ seen := by simpa [contains_eq_false] using hi
        obtain ⟨hs₁, -, hpath⟩ := walk_ok hin hw
        have hs' : ∀ x, x ∈ seen₁ ↔ x ∈ done ++ path.reverse := by
          intro x
          rw [hs₁, List.mem_append, List.mem_append, hs, or_comm]
        have hl' : ∀ x ∈ done ++ path.reverse, par x ≠ some x := by
          intro x hx
          rcases List.mem_append.mp hx with hx | hx
          · exact hl x hx
          · exact (hpath x (List.mem_reverse.mp hx)).2.2
        obtain ⟨hm, hd, hl''⟩ := finishOrder_meets hs' hl' hlt' h
        -- the walk starts with fuel `n`, which is positive since `i < n`
        obtain ⟨m, hm'⟩ : ∃ m, n = m + 1 := ⟨n - 1, by have := hlt i List.mem_cons_self; omega⟩
        rw [hm'] at hw
        refine ⟨fun k hk ↦ ?_, fun x hx ↦ hd x (List.mem_append_left _ hx), hl''⟩
        rcases List.mem_cons.mp hk with rfl | hk
        · exact hd k (List.mem_append_right _ (List.mem_reverse.mpr (mem_walk hw)))
        · exact hm k hk
      · cases h

/-- What the first round keeps of the seen classes and the finishing list when the graph has no
cycle: the same classes, met once, each after its parent. -/
structure Finished (n : Nat) (par : Nat → Option Nat) (seen done : List Nat) : Prop where
  mem_iff : ∀ x, x ∈ seen ↔ x ∈ done
  nodup : seen.Nodup
  lt : ∀ x ∈ seen, x < n
  closed : ∀ x ∈ done, ∀ q, par x = some q → q ∈ done
  ordered : done.Pairwise (fun a b ↦ par a ≠ some b)

theorem finishOrder_acyclic (hb : Bounded n par) (hac : Acyclic par) :
    ∀ {todo seen done : List Nat}, Finished n par seen done → (∀ i ∈ todo, i < n) →
    ∃ done', finishOrder par n todo seen done = .ok done' ∧
      (∀ x ∈ done', ∀ q, par x = some q → q ∈ done') ∧
      done'.Pairwise (fun a b ↦ par a ≠ some b)
  | [], _, _, hf, _ => ⟨_, rfl, hf.closed, hf.ordered⟩
  | i :: todo, seen, done, hf, hlt => by
    have hlt' : ∀ k ∈ todo, k < n := fun k hk ↦ hlt k (List.mem_cons_of_mem _ hk)
    unfold finishOrder
    split
    · exact finishOrder_acyclic hb hac hf hlt'
    · rename_i hi
      have hin : i ∉ seen := by simpa [contains_eq_false] using hi
      have hil : i < n := hlt i List.mem_cons_self
      cases hw : walk par n seen i with
      | error j => exact absurd (.single (walk_error hw)) (hac j)
      | ok r =>
        obtain ⟨path, seen₁⟩ := r
        obtain ⟨hs₁, hnd, hx⟩ := walk_ok hin hw
        obtain ⟨-, hc⟩ := walk_closed hb hf.nodup hf.lt hil hin (by omega) hw
        have hpw := walk_pairwise hac hin hw
        have hf' : Finished n par seen₁ (done ++ path.reverse) := by
          refine ⟨?_, ?_, ?_, ?_, ?_⟩
          · intro x
            rw [hs₁, List.mem_append, List.mem_append, hf.mem_iff, or_comm]
          · rw [hs₁]
            refine List.nodup_append.mpr ⟨List.nodup_reverse.mpr hnd, hf.nodup, ?_⟩
            intro a ha b hb hab
            subst hab
            exact (hx a (List.mem_reverse.mp ha)).1 hb
          · intro x hxs
            rw [hs₁] at hxs
            rcases List.mem_append.mp hxs with hxs | hxs
            · exact reach_lt hb (hx x (List.mem_reverse.mp hxs)).2.1 hil
            · exact hf.lt x hxs
          · intro x hxd q hq
            rcases List.mem_append.mp hxd with hxd | hxd
            · exact List.mem_append_left _ (hf.closed x hxd q hq)
            · have hq₁ := hc x (List.mem_reverse.mp hxd) q hq
              rw [hs₁, List.mem_append, hf.mem_iff] at hq₁
              rcases hq₁ with hq₁ | hq₁
              · exact List.mem_append_right _ hq₁
              · exact List.mem_append_left _ hq₁
          · refine List.pairwise_append.mpr ⟨hf.ordered, List.pairwise_reverse.mpr hpw, ?_⟩
            -- a class met before has its parent met before, and the walk met none of those
            intro a ha b hb hab
            have hbd := (hf.mem_iff b).mpr (hf.closed a ha b hab)
            exact (hx b (List.mem_reverse.mp hb)).1 hbd
        exact finishOrder_acyclic hb hac hf' hlt'

end FirstRound

section SecondRound

theorem secondRound_lt : ∀ {order seen : List Nat} {j : Nat},
    secondRound par n order seen = some j → j < n
  | [], _, _, h => by cases h
  | i :: order, seen, j, h => by
    unfold secondRound at h
    split at h
    · exact secondRound_lt h
    · dsimp only at h
      split at h
      · rename_i hf
        cases h
        exact List.mem_range.mp (List.mem_of_find?_eq_some hf)
      · exact secondRound_lt h

theorem secondRound_after_children : ∀ {order seen : List Nat},
    secondRound par n order seen = none → ∀ {i j : Nat}, i ∈ order → i ∉ seen → j < n →
    par j = some i → j ≠ i → j ∈ seen ∨ (j ∈ order ∧ order.idxOf j < order.idxOf i)
  | [], _, _, _, _, hi, _, _, _, _ => absurd hi List.not_mem_nil
  | a :: order, seen, h, i, j, hi, his, hj, hji, hne => by
    unfold secondRound at h
    split at h
    · rename_i ha
      have hia : i ≠ a := fun e ↦ his (e ▸ List.contains_iff_mem.mp ha)
      have hio : i ∈ order := (List.mem_cons.mp hi).resolve_left hia
      rcases secondRound_after_children h hio his hj hji hne with hjs | ⟨hjo, hlt⟩
      · exact .inl hjs
      · by_cases hja : j = a
        · exact .inl (hja ▸ List.contains_iff_mem.mp ha)
        · refine .inr ⟨List.mem_cons_of_mem _ hjo, ?_⟩
          have haj : (a == j) = false := beq_false_of_ne (Ne.symm hja)
          have hai : (a == i) = false := beq_false_of_ne (Ne.symm hia)
          simp only [List.idxOf_cons, haj, hai, cond_false]
          omega
    · dsimp only at h
      split at h
      · cases h
      · rename_i hf
        by_cases hia : i = a
        · -- the children of `a` were all seen when `a` was reached
          subst hia
          have hc := List.find?_eq_none.mp hf j (List.mem_range.mpr hj)
          simp only [hji, beq_self_eq_true, Bool.true_and, Bool.not_eq_true',
            Bool.not_eq_false, List.contains_iff_mem, List.mem_cons] at hc
          exact .inl (hc.resolve_left hne)
        · have hio : i ∈ order := (List.mem_cons.mp hi).resolve_left hia
          have his' : i ∉ a :: seen := by
            simp only [List.mem_cons, not_or]
            exact ⟨hia, his⟩
          rcases secondRound_after_children h hio his' hj hji hne with hjs | ⟨hjo, hlt⟩
          · rcases List.mem_cons.mp hjs with rfl | hjs
            · refine .inr ⟨List.mem_cons_self, ?_⟩
              simp [Ne.symm hia]
            · exact .inl hjs
          · by_cases hja : j = a
            · subst hja
              refine .inr ⟨List.mem_cons_self, ?_⟩
              simp [Ne.symm hia]
            · refine .inr ⟨List.mem_cons_of_mem _ hjo, ?_⟩
              have haj : (a == j) = false := beq_false_of_ne (Ne.symm hja)
              have hai : (a == i) = false := beq_false_of_ne (Ne.symm hia)
              simp only [List.idxOf_cons, haj, hai, cond_false]
              omega

theorem secondRound_of_ordered : ∀ {order seen : List Nat},
    order.Pairwise (fun a b ↦ par b ≠ some a) →
    (∀ i ∈ order, ∀ j < n, par j = some i → j ∈ order ∨ j ∈ seen) →
    secondRound par n order seen = none
  | [], _, _, _ => rfl
  | a :: order, seen, hp, hc => by
    obtain ⟨ha, hp'⟩ := List.pairwise_cons.mp hp
    unfold secondRound
    split
    · rename_i has
      refine secondRound_of_ordered hp' fun i hi j hj hji ↦ ?_
      rcases hc i (List.mem_cons_of_mem _ hi) j hj hji with hjo | hjs
      · rcases List.mem_cons.mp hjo with rfl | hjo
        · exact .inr (List.contains_iff_mem.mp has)
        · exact .inl hjo
      · exact .inr hjs
    · have hf : (List.range n).find? (fun j ↦ par j == some a && !(a :: seen).contains j) =
          none := by
        refine List.find?_eq_none.mpr fun j hj hbad ↦ ?_
        simp only [Bool.and_eq_true, beq_iff_eq, Bool.not_eq_true', contains_eq_false,
          List.mem_cons, not_or] at hbad
        obtain ⟨hja, hjne, hjs⟩ := hbad
        rcases hc a List.mem_cons_self j (List.mem_range.mp hj) hja with hjo | hjs'
        · rcases List.mem_cons.mp hjo with rfl | hjo
          · exact hjne rfl
          · exact ha j hjo hja
        · exact hjs hjs'
      dsimp only
      rw [hf]
      refine secondRound_of_ordered hp' fun i hi j hj hji ↦ ?_
      rcases hc i (List.mem_cons_of_mem _ hi) j hj hji with hjo | hjs
      · rcases List.mem_cons.mp hjo with rfl | hjo
        · exact .inr List.mem_cons_self
        · exact .inl hjo
      · exact .inr (List.mem_cons_of_mem _ hjs)

end SecondRound

theorem cycleWitness_lt (hb : Bounded n par) {j : Nat} (h : cycleWitness n par = some j) :
    j < n := by
  unfold cycleWitness at h
  split at h
  · cases h
    exact (hb j j (finishOrder_error ‹_›)).1
  · exact secondRound_lt h

/-- The search reports no class exactly when the graph has no cycle. -/
theorem cycleWitness_eq_none_iff (hb : Bounded n par) : cycleWitness n par = none ↔ Acyclic par := by
  constructor
  · intro h x hx
    unfold cycleWitness at h
    split at h
    · cases h
    · rename_i done hd
      obtain ⟨hall, -, hl⟩ := finishOrder_meets (by simp) (by simp)
        (fun i hi ↦ List.mem_range.mp hi) hd
      have hmem : ∀ k < n, k ∈ done.reverse := fun k hk ↦
        List.mem_reverse.mpr (hall k (List.mem_range.mpr hk))
      -- the second round puts every child before its parent, so positions rise along edges
      have hedge : ∀ a b, Edge par a b → done.reverse.idxOf a < done.reverse.idxOf b := by
        intro a b hab
        obtain ⟨ha, hb'⟩ := hb a b hab
        have hne : a ≠ b := by
          rintro rfl
          exact hl a (List.mem_reverse.mp (hmem a ha)) hab
        rcases secondRound_after_children h (hmem b hb') List.not_mem_nil ha hab hne with
          hs | ⟨-, hlt⟩
        · exact absurd hs List.not_mem_nil
        · exact hlt
      have hrise : ∀ {a b}, Relation.TransGen (Edge par) a b →
          done.reverse.idxOf a < done.reverse.idxOf b := by
        intro a b hab
        induction hab with
        | single he => exact hedge _ _ he
        | tail _ he ih => exact Nat.lt_trans ih (hedge _ _ he)
      exact Nat.lt_irrefl _ (hrise hx)
  · intro hac
    have hf : Finished n par [] [] := ⟨by simp, List.nodup_nil, by simp, by simp, List.Pairwise.nil⟩
    obtain ⟨done, hd, -, hord⟩ :=
      finishOrder_acyclic hb hac hf (fun i hi ↦ List.mem_range.mp hi)
    obtain ⟨hall, -, -⟩ := finishOrder_meets (by simp) (by simp)
      (fun i hi ↦ List.mem_range.mp hi) hd
    unfold cycleWitness
    rw [hd]
    refine secondRound_of_ordered (List.pairwise_reverse.mpr hord) fun i _ j hj _ ↦ ?_
    exact .inl (List.mem_reverse.mpr (hall j (List.mem_range.mpr hj)))

end ClassLang.Hierarchy
