/-
  SystemOS.Lib.ExchangeSort — sorting by exchanging each entry with the later ones.

  For each index, and each later one, the two entries are exchanged if the first is greater.  What
  "greater" means is a parameter.

  Key results:
    * `sort_perm`   — the sorted list is a permutation.
    * `sort_sorted` — no entry of it is greater than a later one.
-/
import Mathlib.Tactic.Basic

namespace SystemOS.Lib.ExchangeSort

variable {α : Type} (gt : α → α → Bool)

/-- Of two entries one is not greater than the other, and not being greater is transitive. -/
structure Total : Prop where
  asymm : ∀ a b, gt a b = true → gt b a = false
  trans : ∀ a b c, gt a b = false → gt b c = false → gt a c = false

/-- Exchange two entries if the first is greater. -/
def exchange (l : List α) (i j : Nat) : List α :=
  match l[i]?, l[j]? with
  | some a, some b => if gt a b then (l.set i b).set j a else l
  | _, _ => l

/-- The later indices of an index, in order. -/
def laterPairs (n i : Nat) : List (Nat × Nat) :=
  (List.range' (i + 1) (n - (i + 1))).map fun j => (i, j)

def exchangeAll (pairs : List (Nat × Nat)) (l : List α) : List α :=
  pairs.foldl (fun l p => exchange gt l p.1 p.2) l

/-- The sort. -/
def sort (l : List α) : List α :=
  exchangeAll gt ((List.range (l.length - 1)).flatMap (laterPairs l.length)) l

/-! ## §1. One exchange. -/

variable {l : List α} {i j : Nat} {a b : α}

theorem exchange_eq (hi : l[i]? = some a) (hj : l[j]? = some b) :
    exchange gt l i j = if gt a b then (l.set i b).set j a else l := by
  unfold exchange
  rw [hi, hj]

theorem exchange_perm (l : List α) (i j : Nat) : (exchange gt l i j).Perm l := by
  unfold exchange
  split
  · rename_i a b hi hj
    obtain ⟨hilt, rfl⟩ := List.getElem?_eq_some_iff.mp hi
    obtain ⟨hjlt, rfl⟩ := List.getElem?_eq_some_iff.mp hj
    split
    · exact List.set_set_perm hilt hjlt
    · exact List.Perm.refl l
  · exact List.Perm.refl l

/-- The entries after an exchange. -/
theorem exchange_getElem? (hi : l[i]? = some a) (hj : l[j]? = some b) (k : Nat) :
    (exchange gt l i j)[k]? =
      if gt a b then (if k = j then some a else if k = i then some b else l[k]?) else l[k]? := by
  have hilt := (List.getElem?_eq_some_iff.mp hi).1
  have hjlt := (List.getElem?_eq_some_iff.mp hj).1
  rw [exchange_eq gt hi hj]
  by_cases hgt : gt a b = true
  · rw [if_pos hgt, if_pos hgt, List.getElem?_set, List.getElem?_set, List.length_set]
    by_cases hkj : j = k
    · rw [if_pos hkj, if_pos hjlt, if_pos hkj.symm]
    · rw [if_neg hkj, if_neg (Ne.symm hkj)]
      by_cases hki : i = k
      · rw [if_pos hki, if_pos hilt, if_pos hki.symm]
      · rw [if_neg hki, if_neg (Ne.symm hki)]
  · rw [if_neg hgt, if_neg hgt]

theorem exchangeAll_perm (pairs : List (Nat × Nat)) (l : List α) :
    (exchangeAll gt pairs l).Perm l := by
  induction pairs generalizing l with
  | nil => exact List.Perm.refl l
  | cons p pairs ih => exact (ih _).trans (exchange_perm gt l p.1 p.2)

/-- **The sorted list is a permutation.** -/
theorem sort_perm (l : List α) : (sort gt l).Perm l := exchangeAll_perm gt _ l

/-! ## §2. The loops. -/

/-- No entry below `n` is greater than a later one. -/
def Settled (l : List α) (n : Nat) : Prop :=
  ∀ i j a b, i < n → i < j → l[i]? = some a → l[j]? = some b → gt a b = false

/-- Entry `i` is not greater than those behind it, up to `n`. -/
def Least (l : List α) (i n : Nat) : Prop :=
  ∀ j a b, i < j → j < n → l[i]? = some a → l[j]? = some b → gt a b = false

/-- Where an entry was before an exchange of entry `i` with a later one. -/
theorem exchange_source (hij : i < j) {k : Nat} (hk : (exchange gt l i j)[k]? = some b) :
    ∃ k', l[k']? = some b ∧ (k < i → k' = k) ∧ (i ≤ k → i ≤ k') := by
  cases hi : l[i]? with
  | none =>
    rw [exchange, hi] at hk
    exact ⟨k, hk, fun _ => rfl, id⟩
  | some x =>
    cases hj : l[j]? with
    | none =>
      rw [exchange, hi, hj] at hk
      exact ⟨k, hk, fun _ => rfl, id⟩
    | some y =>
      rw [exchange_getElem? gt hi hj] at hk
      split at hk
      · split at hk
        · exact ⟨i, hi.trans hk, fun h => by omega, fun _ => Nat.le_refl i⟩
        · split at hk
          · exact ⟨j, hj.trans hk, fun h => by omega, fun _ => Nat.le_of_lt hij⟩
          · exact ⟨k, hk, fun _ => rfl, id⟩
      · exact ⟨k, hk, fun _ => rfl, id⟩

/-- An exchange takes place among the entries that are not settled. -/
theorem settled_exchange (hs : Settled gt l i) (hij : i < j) : Settled gt (exchange gt l i j) i := by
  intro p q x y hp hpq hx hy
  obtain ⟨p', hx', hbelow, -⟩ := exchange_source gt hij hx
  obtain ⟨q', hy', hsame, habove⟩ := exchange_source gt hij hy
  have hpp := hbelow hp
  refine hs p' q' x y (by omega) ?_ hx' hy'
  rcases Nat.lt_or_ge q i with hq | hq
  · have := hsame hq
    omega
  · have := habove hq
    omega

/-- The exchange with the next entry keeps the least one in front. -/
theorem least_exchange (htotal : Total gt) (hl : Least gt l i j) (hij : i < j) (hj : j < l.length) :
    Least gt (exchange gt l i j) i (j + 1) := by
  have hjb := List.getElem?_eq_getElem hj
  have hi := Nat.lt_trans hij hj
  have hia := List.getElem?_eq_getElem hi
  intro k x y hik hkj hx hy
  rw [exchange_getElem? gt hia hjb] at hx hy
  by_cases hgt : gt l[i] l[j] = true
  · rw [if_pos hgt, if_neg (by omega), if_pos rfl] at hx
    rw [if_pos hgt] at hy
    have hback := htotal.asymm _ _ hgt
    by_cases hk : k = j
    · rw [if_pos hk] at hy
      rw [← Option.some.inj hx, ← Option.some.inj hy]
      exact hback
    · rw [if_neg hk, if_neg (by omega)] at hy
      rw [← Option.some.inj hx]
      exact htotal.trans _ _ _ hback (hl k _ y hik (by omega) hia hy)
  · rw [if_neg hgt] at hx hy
    by_cases hk : k = j
    · rw [hk, hjb] at hy
      rw [hia] at hx
      rw [← Option.some.inj hx, ← Option.some.inj hy]
      exact Bool.eq_false_iff.mpr hgt
    · exact hl k x y hik (by omega) hx hy

/-- The inner loop finds the least of the remaining entries. -/
theorem inner_spec (htotal : Total gt) (hs : Settled gt l i) (m : Nat) (hm : i + 1 + m ≤ l.length) :
    let l' := exchangeAll gt ((List.range' (i + 1) m).map fun j => (i, j)) l
    Settled gt l' i ∧ Least gt l' i (i + 1 + m) := by
  induction m with
  | zero => exact ⟨hs, fun k x y hik hk => absurd hk (by omega)⟩
  | succ m ih =>
    obtain ⟨hsettled, hleast⟩ := ih (by omega)
    have hlength := (exchangeAll_perm gt ((List.range' (i + 1) m).map fun j => (i, j)) l).length_eq
    have hstep : exchangeAll gt ((List.range' (i + 1) (m + 1)).map fun j => (i, j)) l
        = exchange gt (exchangeAll gt ((List.range' (i + 1) m).map fun j => (i, j)) l) i
          (i + 1 + m) := by
      unfold exchangeAll
      rw [List.range'_concat, List.map_append, List.foldl_append, Nat.one_mul]
      rfl
    intro l'
    show Settled gt (exchangeAll gt _ l) i ∧ Least gt (exchangeAll gt _ l) i _
    rw [hstep]
    exact ⟨settled_exchange gt hsettled (by omega),
      least_exchange gt htotal hleast (by omega) (by omega)⟩

/-- The outer loop settles one entry after the other. -/
theorem outer_spec (htotal : Total gt) (l : List α) (n : Nat) (hn : n ≤ l.length - 1) :
    Settled gt (exchangeAll gt ((List.range n).flatMap (laterPairs l.length)) l) n := by
  induction n with
  | zero => exact fun i j a b hi => absurd hi (Nat.not_lt_zero i)
  | succ n ih =>
    have hlength :=
      (exchangeAll_perm gt ((List.range n).flatMap (laterPairs l.length)) l).length_eq
    have hstep : exchangeAll gt ((List.range (n + 1)).flatMap (laterPairs l.length)) l
        = exchangeAll gt (laterPairs l.length n)
          (exchangeAll gt ((List.range n).flatMap (laterPairs l.length)) l) := by
      unfold exchangeAll
      rw [List.range_succ, List.flatMap_append, List.foldl_append, List.flatMap_singleton]
    rw [hstep]
    generalize exchangeAll gt ((List.range n).flatMap (laterPairs l.length)) l = l₁ at ih hlength ⊢
    obtain ⟨hsettled, hleast⟩ := inner_spec gt htotal (ih (by omega))
      (l.length - (n + 1)) (by omega)
    have hperm := (exchangeAll_perm gt (laterPairs l.length n) l₁).length_eq
    intro i j a b hi hij ha hb
    rcases Nat.lt_succ_iff_lt_or_eq.mp hi with hlt | rfl
    · exact hsettled i j a b hlt hij ha hb
    · have hj := (List.getElem?_eq_some_iff.mp hb).1
      exact hleast j a b hij (by omega) ha hb

/-- **No entry of the sorted list is greater than a later one.** -/
theorem sort_sorted (htotal : Total gt) (l : List α) : (sort gt l).Pairwise fun a b => gt a b = false := by
  have hlength := (sort_perm gt l).length_eq
  have hsettled := outer_spec gt htotal l (l.length - 1) (Nat.le_refl _)
  refine List.pairwise_iff_getElem.mpr fun i j hi hj hij => ?_
  exact hsettled i j _ _ (by omega) hij (List.getElem?_eq_getElem hi) (List.getElem?_eq_getElem hj)

end SystemOS.Lib.ExchangeSort
