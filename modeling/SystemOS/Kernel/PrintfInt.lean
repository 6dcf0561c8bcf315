/-
  SystemOS.Kernel.PrintfInt — the string that `printfInt` builds.

  The digits are written from the last one on, a minus sign goes behind those of a negative number,
  and the string is reversed in place.  An `int` of 32 bits is negated before that, which leaves
  -2^31 as it is.

  Main results:
    * `reverseLoop_eq` — the loop reverses the string.
    * `built_eq`       — the string of every other number.
    * `correct_iff`    — exactly for these it is the decimal representation.
-/
import SystemOS.Kernel.Printf
import SystemOS.Lib.Scanf

namespace SystemOS.Kernel.PrintfInt

open SystemOS.Kernel.Printf SystemOS.Lib.Decimal SystemOS.Lib.Lines SystemOS.Lib.Scanf

/-! ## §1. The code. -/

/-- An `int` as a `char`. -/
def toChar (v : Int32) : UInt8 := v.toUInt32.toUInt8

def digitChar (rem : Int32) : UInt8 := if 9 < rem then toChar (rem - 10 + 65) else toChar (rem + 48)

theorem toInt_div_ten (num : Int32) : (num / 10).toInt = num.toInt.tdiv 10 :=
  Int32.toInt_div_of_ne_right num 10 (by decide)

/-- "Process individual digits": `str` is what has been written, and `i` its length. -/
def putDigits (num : Int32) (str : Bytes) : Bytes :=
  if num = 0 then str else putDigits (num / 10) (str ++ [digitChar (num % 10)])
termination_by num.toInt.natAbs
decreasing_by
  rename_i hzero
  have hne : num.toInt ≠ 0 := fun h => hzero (Int32.toInt_inj.mp h)
  rw [toInt_div_ten, Int.natAbs_tdiv]
  show num.toInt.natAbs / 10 < num.toInt.natAbs
  omega

/-- `temp = str[start]; str[start] = str[end]; str[end] = temp`. -/
def swap (str : Bytes) (start stop : Nat) : Bytes :=
  (str.set start (str.getD stop 0)).set stop (str.getD start 0)

/-- "Reverse the string". -/
def reverseLoop (start stop : Nat) (str : Bytes) : Bytes :=
  if start < stop then reverseLoop (start + 1) (stop - 1) (swap str start stop) else str
termination_by stop - start

/-- The string that `printfInt` builds, without the terminator. -/
def built (num : Int32) : Bytes :=
  if num = 0 then [48]
  else
    let str := putDigits (if num < 0 then -num else num) []
    let str := if num < 0 then str ++ [45] else str
    reverseLoop 0 (str.length - 1) str

def printfInt (s : Screen) (num : Int32) : Screen := printf s (built num)

/-! ## §2. The reversal. -/

theorem swap_getElem? {str : Bytes} {start stop : Nat} (hlt : start < stop)
    (hstop : stop < str.length) (k : Nat) : (swap str start stop)[k]? =
      if k = stop then str[start]? else if k = start then str[stop]? else str[k]? := by
  have hstart : start < str.length := Nat.lt_trans hlt hstop
  unfold swap
  rw [List.getElem?_set, List.getElem?_set, List.length_set]
  by_cases hk : stop = k
  · rw [if_pos hk, if_pos hstop, if_pos hk.symm, List.getD_eq_getElem?_getD,
      List.getElem?_eq_getElem hstart]
    rfl
  · rw [if_neg hk, if_neg (Ne.symm hk)]
    by_cases hk' : start = k
    · rw [if_pos hk', if_pos hstart, if_pos hk'.symm, List.getD_eq_getElem?_getD,
        List.getElem?_eq_getElem hstop]
      rfl
    · rw [if_neg hk', if_neg (Ne.symm hk')]

/-- The loop turns the part between the two indices around. -/
theorem reverseLoop_getElem? {start stop : Nat} {str : Bytes} (hstop : stop < str.length) (k : Nat) :
    (reverseLoop start stop str)[k]? =
      if start ≤ k ∧ k ≤ stop then str[start + stop - k]? else str[k]? := by
  fun_induction reverseLoop start stop str with
  | case1 start stop str hlt ih =>
    have hlength : (swap str start stop).length = str.length := by
      unfold swap
      rw [List.length_set, List.length_set]
    rw [ih (by omega), swap_getElem? hlt hstop, swap_getElem? hlt hstop]
    by_cases hinner : start + 1 ≤ k ∧ k ≤ stop - 1
    · -- the two characters that were swapped lie outside
      rw [if_pos hinner, if_neg (by omega), if_neg (by omega), if_pos (by omega)]
      exact congrArg (str[·]?) (by omega)
    · rw [if_neg hinner]
      by_cases hk : k = stop
      · rw [if_pos hk, if_pos (by omega), hk]
        exact congrArg (str[·]?) (by omega)
      · by_cases hk' : k = start
        · rw [if_neg hk, if_pos hk', if_pos (by omega), hk']
          exact congrArg (str[·]?) (by omega)
        · rw [if_neg hk, if_neg hk', if_neg (by omega)]
  | case2 start stop str hge =>
    split
    · -- at most one character lies between them
      exact congrArg (str[·]?) (by omega)
    · rfl

/-- **The loop reverses the string.** -/
theorem reverseLoop_eq {str : Bytes} (hne : str ≠ []) :
    reverseLoop 0 (str.length - 1) str = str.reverse := by
  have hlength := List.length_pos_iff.mpr hne
  apply List.ext_getElem?
  intro k
  rw [reverseLoop_getElem? (by omega)]
  by_cases hk : k < str.length
  · rw [if_pos (by omega), List.getElem?_reverse hk, Nat.zero_add]
  · rw [if_neg (by omega), List.getElem?_eq_none (by omega),
      List.getElem?_eq_none (by rw [List.length_reverse]; omega)]

/-! ## §3. The digits. -/

theorem digitChar_eq {num : Int32} {n : Nat} (hn : num.toInt = n) :
    digitChar (num % 10) = UInt8.ofNat (48 + n % 10) := by
  have hlt : n % 10 < 10 := Nat.mod_lt n (by decide)
  have hmod : num % 10 = Int32.ofNat (n % 10) := by
    apply Int32.toInt_inj.mp
    rw [Int32.toInt_mod, hn, Int32.toInt_ofNat_of_lt (by omega)]
    rfl
  rw [hmod]
  generalize n % 10 = d at hlt
  interval_cases d <;> rfl

theorem putDigits_zero (str : Bytes) : putDigits 0 str = str := by
  rw [putDigits, if_pos rfl]

theorem putDigits_of_ne {num : Int32} (hne : num ≠ 0) (str : Bytes) :
    putDigits num str = putDigits (num / 10) (str ++ [digitChar (num % 10)]) := by
  rw [putDigits, if_neg hne]

theorem ne_zero_of_toInt {num : Int32} {n : Nat} (hn : num.toInt = n) (hpos : 0 < n) : num ≠ 0 := by
  rintro rfl
  exact absurd (Int.ofNat_inj.mp hn) (Nat.ne_of_lt hpos)

theorem toInt_div {num : Int32} {n : Nat} (hn : num.toInt = n) : (num / 10).toInt = (n / 10 : Nat) := by
  rw [toInt_div_ten, hn]
  rfl

/-- The digits of a positive number, the last one first. -/
theorem putDigits_eq {n : Nat} (hpos : 0 < n) {num : Int32} (hn : num.toInt = n) (str : Bytes) :
    putDigits num str = str ++ (digits n).reverse := by
  induction n using digits_induction generalizing num str with
  | hsingle n hlt =>
    have hdone : num / 10 = 0 := by
      apply Int32.toInt_inj.mp
      rw [toInt_div hn, Nat.div_eq_of_lt hlt]
      rfl
    rw [putDigits_of_ne (ne_zero_of_toInt hn hpos), hdone, putDigits_zero, digitChar_eq hn,
      digits_single hlt, Nat.mod_eq_of_lt hlt]
    rfl
  | hstep n hge ih =>
    rw [putDigits_of_ne (ne_zero_of_toInt hn hpos), ih (by omega) (toInt_div hn), digitChar_eq hn,
      digits_step hge, List.reverse_append, List.append_assoc]
    rfl

/-- What has been written stays. -/
theorem mem_putDigits {c : UInt8} {num : Int32} {str : Bytes} (h : c ∈ str) :
    c ∈ putDigits num str := by
  fun_induction putDigits num str with
  | case1 => exact h
  | case2 num str hne ih => exact ih (List.mem_append_left _ h)

/-! ## §4. The string. -/

/-- The string is the decimal representation of the number, it fits into the 12 bytes with its
    terminator, and it is read back as the number. -/
def Correct (num : Int32) : Prop :=
  built num = decimal num.toInt ∧ (built num).length + 1 ≤ 12
    ∧ scanInt (built num) = some (num.toInt, [])

theorem built_of_neg {num : Int32} (hneg : num < 0) :
    built num = 45 :: (putDigits (-num) []).reverse := by
  have hne : num ≠ 0 := by
    rintro rfl
    exact absurd hneg (by decide)
  have hbuilt : built num = reverseLoop 0 ((putDigits (-num) [] ++ [45]).length - 1)
      (putDigits (-num) [] ++ [45]) := by
    unfold built
    simp only [if_neg hne, if_pos hneg]
  rw [hbuilt, reverseLoop_eq (List.append_ne_nil_of_right_ne_nil _ (List.cons_ne_nil 45 [])),
    List.reverse_append]
  rfl

theorem built_of_pos {num : Int32} {n : Nat} (hpos : 0 < n) (hn : num.toInt = n) :
    built num = digits n := by
  have hneg : ¬ num < 0 := fun h => by
    have hlt : num.toInt < 0 := Int32.lt_iff_toInt_lt.mp h
    omega
  have hbuilt : built num
      = reverseLoop 0 ((putDigits num []).length - 1) (putDigits num []) := by
    unfold built
    simp only [if_neg (ne_zero_of_toInt hn hpos), if_neg hneg]
  rw [hbuilt, putDigits_eq hpos hn, List.nil_append,
    reverseLoop_eq (List.reverse_ne_nil_iff.mpr (digits_ne_nil n)), List.reverse_reverse]

/-- **The string of every number but -2^31.** -/
theorem built_eq {num : Int32} (hmin : num ≠ Int32.minValue) : built num = decimal num.toInt := by
  rcases h : num.toInt with n | n
  · rcases Nat.eq_zero_or_pos n with rfl | hpos
    · obtain rfl : num = 0 := Int32.toInt_inj.mp h
      exact (digits_single (n := 0) (by decide)).symm
    · exact built_of_pos hpos h
  · have hneg : num < 0 := Int32.lt_iff_toInt_lt.mpr (h ▸ Int.negSucc_lt_zero n)
    have hlow : num.toInt ≠ -2 ^ 31 := fun heq => hmin (Int32.toInt_inj.mp heq)
    -- the negation exists
    have hnegated : (-num).toInt = (n + 1 : Nat) := by
      have hle := Int32.le_toInt num
      rw [Int32.toInt_neg, Int.bmod_eq_of_le (by omega) (by omega), h]
      rfl
    rw [built_of_neg hneg, putDigits_eq (Nat.succ_pos n) hnegated, List.nil_append,
      List.reverse_reverse]
    rfl

/-- What comes on the screen. -/
theorem printfInt_eq (s : Screen) {num : Int32} (hmin : num ≠ Int32.minValue) :
    printfInt s num = printf s (decimal num.toInt) := by
  unfold printfInt
  rw [built_eq hmin]

theorem minus_or_digit {v : Int} {c : UInt8} (h : c ∈ decimal v) :
    c = 45 ∨ (48 ≤ c.toNat ∧ c.toNat ≤ 57) := by
  cases v with
  | ofNat n => exact Or.inr (digits_bounds n c h)
  | negSucc n =>
    rcases List.mem_cons.mp h with hminus | hdigit
    · exact Or.inl hminus
    · exact Or.inr (digits_bounds (n + 1) c hdigit)

/-- The number that is its own negation gives a string with an opening bracket in it. -/
theorem bracket_mem : 40 ∈ built Int32.minValue := by
  rw [built_of_neg (by decide), putDigits_of_ne (by decide)]
  refine List.mem_cons_of_mem 45 (List.mem_reverse.mpr (mem_putDigits ?_))
  decide

theorem min_wrong : ¬ Correct Int32.minValue := by
  rintro ⟨hbuilt, -⟩
  have hbracket := minus_or_digit (hbuilt ▸ bracket_mem)
  exact absurd hbracket (by decide)

/-- **When the string is right**: for every number but -2^31. -/
theorem correct_iff (num : Int32) : Correct num ↔ num ≠ Int32.minValue := by
  constructor
  · rintro hcorrect rfl
    exact min_wrong hcorrect
  · intro hmin
    have hbuilt := built_eq hmin
    have hlength : (decimal num.toInt).length ≤ 10 + 1 := by
      have hle := Int32.le_toInt num
      have hlt := Int32.toInt_lt num
      exact decimal_length (by decide) (by omega)
    refine ⟨hbuilt, ?_, ?_⟩
    · rw [hbuilt]
      exact Nat.succ_le_succ hlength
    · rw [hbuilt, ← List.append_nil (decimal num.toInt)]
      exact scanInt_decimal num.toInt fun c hc => by cases hc

/-- `printfInt(-2147483648)` prints `-./,),(-*,(`. -/
theorem printfInt_min : ¬ ∀ num : Int32, Correct num := by
  intro hclaim
  exact min_wrong (hclaim Int32.minValue)

end SystemOS.Kernel.PrintfInt
