/-
  SystemOS.Lib.Scanf — formats with `%d`, as `printf` writes them and `sscanf` reads them.

  A format is a list of items: bytes that must match, white space, and integers, which `sscanf`
  stores or, for `%*d`, reads and drops.  What `sscanf` stores is the list of integers up to the
  first item that does not match.

  Key results:
    * `scanInt_decimal` — an integer that was printed is read back.
    * `sscanf_printf`   — and so are all integers of a text printed with the format.
-/
import Mathlib.Data.List.TakeWhile
import SystemOS.Lib.Decimal

namespace SystemOS.Lib.Scanf

open SystemOS.Lib.Lines SystemOS.Lib.Decimal

/-! ## §1. Formats. -/

/-- White space, as `isspace` knows it. -/
def white (c : UInt8) : Bool := c == 32 || (9 ≤ c && c ≤ 13)

def digit (c : UInt8) : Bool := 48 ≤ c && c ≤ 57

/-- `%d` is `int true`, `%*d` is `int false`. -/
inductive Item
  | lit (c : UInt8)
  | space (c : UInt8)
  | int (stored : Bool)
  deriving DecidableEq, Repr

/-- The items of a format string. -/
def items : Bytes → List Item
  | 37 :: 100 :: bs => .int true :: items bs
  | 37 :: 42 :: 100 :: bs => .int false :: items bs
  | c :: bs => (if white c then .space c else .lit c) :: items bs
  | [] => []

/-- `printf`; an integer is written in either case. -/
def printf : List Item → List Int → Bytes
  | [], _ => []
  | .lit c :: fmt, args => c :: printf fmt args
  | .space c :: fmt, args => c :: printf fmt args
  | .int _ :: fmt, v :: args => decimal v ++ printf fmt args
  | .int _ :: fmt, [] => printf fmt []

/-- The sign and the digits behind white space, and what follows them. -/
def scanInt (bs : Bytes) : Option (Int × Bytes) :=
  let bs := bs.dropWhile white
  let ds := if bs.head? = some 45 ∨ bs.head? = some 43 then bs.tail else bs
  let v : Int := value (ds.takeWhile digit)
  if ds.takeWhile digit = [] then none
  else some (if bs.head? = some 45 then -v else v, ds.dropWhile digit)

/-- `sscanf`: the integers that it stores. -/
def sscanf : List Item → Bytes → List Int
  | [], _ => []
  | .lit _ :: _, [] => []
  | .lit c :: fmt, b :: bs => if b = c then sscanf fmt bs else []
  | .space _ :: fmt, bs => sscanf fmt (bs.dropWhile white)
  | .int stored :: fmt, bs =>
    match scanInt bs with
    | none => []
    | some (v, rest) => if stored then v :: sscanf fmt rest else sscanf fmt rest

/-! ## §2. One integer. -/

theorem digit_digits {n : Nat} {c : UInt8} (h : c ∈ digits n) : digit c = true := by
  obtain ⟨hlo, hhi⟩ := digits_bounds n c h
  rw [digit, Bool.and_eq_true, decide_eq_true_eq, decide_eq_true_eq]
  exact ⟨hlo, hhi⟩

theorem digit_not_white {c : UInt8} (h : digit c = true) : white c = false := by
  rw [digit, Bool.and_eq_true, decide_eq_true_eq, decide_eq_true_eq] at h
  have hlo : 48 ≤ c.toNat := h.1
  have hne : c ≠ 32 := by
    rintro rfl
    exact absurd hlo (by decide)
  have hgt : ¬ c ≤ 13 := fun hle => by
    have : c.toNat ≤ 13 := hle
    omega
  rw [white, beq_false_of_ne hne, decide_eq_false hgt, Bool.and_false, Bool.or_false]

/-- What follows an integer does not go on with its digits. -/
def Stops (rest : Bytes) : Prop := ∀ c, rest.head? = some c → digit c = false

theorem takeWhile_digits (n : Nat) {rest : Bytes} (h : Stops rest) :
    (digits n ++ rest).takeWhile digit = digits n
      ∧ (digits n ++ rest).dropWhile digit = rest := by
  have hall : ∀ c ∈ digits n, digit c = true := fun _ hc => digit_digits hc
  rw [List.takeWhile_append_of_pos hall, List.dropWhile_append_of_pos hall]
  cases rest with
  | nil => exact ⟨List.append_nil _, rfl⟩
  | cons c cs =>
    have hc : ¬ digit c = true := by
      rw [h c rfl]
      decide
    rw [List.takeWhile_cons_of_neg hc, List.dropWhile_cons_of_neg hc, List.append_nil]
    exact ⟨rfl, rfl⟩

/-- The first byte of a printed integer is its sign or a digit. -/
theorem decimal_cons (v : Int) : ∃ c cs, decimal v = c :: cs ∧ white c = false := by
  cases v with
  | ofNat n =>
    obtain ⟨c, cs, hds⟩ := List.exists_cons_of_ne_nil (digits_ne_nil n)
    exact ⟨c, cs, hds, digit_not_white (digit_digits (hds ▸ List.mem_cons_self))⟩
  | negSucc n => exact ⟨45, digits (n + 1), rfl, by decide⟩

/-- **An integer that was printed is read back.** -/
theorem scanInt_decimal (v : Int) {rest : Bytes} (h : Stops rest) :
    scanInt (decimal v ++ rest) = some (v, rest) := by
  obtain ⟨c, cs, hcons, hwhite⟩ := decimal_cons v
  have hdrop : (decimal v ++ rest).dropWhile white = decimal v ++ rest := by
    rw [hcons]
    exact List.dropWhile_cons_of_neg (by rw [hwhite]; decide)
  unfold scanInt
  rw [hdrop]
  cases v with
  | negSucc n =>
    obtain ⟨htake, hrest⟩ := takeWhile_digits (n + 1) h
    show (if (digits (n + 1) ++ rest).takeWhile digit = [] then none
      else some (-(value ((digits (n + 1) ++ rest).takeWhile digit) : Int),
        (digits (n + 1) ++ rest).dropWhile digit)) = _
    rw [htake, hrest, if_neg (digits_ne_nil _), digits_value]
    rfl
  | ofNat n =>
    obtain ⟨htake, hrest⟩ := takeWhile_digits n h
    obtain ⟨d, ds, hds⟩ := List.exists_cons_of_ne_nil (digits_ne_nil n)
    have hd : digit d = true := digit_digits (n := n) (hds ▸ List.mem_cons_self)
    have hsign : ∀ s : UInt8, digit s = false → (digits n ++ rest).head? ≠ some s := by
      intro s hs heq
      rw [hds] at heq
      rw [Option.some.inj heq, hs] at hd
      cases hd
    show (let bs := digits n ++ rest
      let ds := if bs.head? = some 45 ∨ bs.head? = some 43 then bs.tail else bs
      let v : Int := value (ds.takeWhile digit)
      if ds.takeWhile digit = [] then none
      else some (if bs.head? = some 45 then -v else v, ds.dropWhile digit)) = _
    dsimp only
    rw [if_neg (not_or.mpr ⟨hsign 45 (by decide), hsign 43 (by decide)⟩), htake, hrest,
      if_neg (digits_ne_nil n), if_neg (hsign 45 (by decide)), digits_value]
    rfl

/-! ## §3. A whole format. -/

/-- A format whose printed texts are read back: a literal byte is not white, and no integer is
    followed by a digit or by another integer. -/
def Readable : List Item → Prop
  | [] => True
  | .lit c :: fmt => white c = false ∧ Readable fmt
  | .space c :: fmt => white c = true ∧ Readable fmt
  | .int _ :: .lit c :: fmt => digit c = false ∧ Readable (.lit c :: fmt)
  | .int _ :: .int _ :: _ => False
  | .int _ :: fmt => Readable fmt

instance Readable.decidable : ∀ fmt, Decidable (Readable fmt)
  | [] => .isTrue trivial
  | .lit c :: fmt =>
    have := Readable.decidable fmt
    inferInstanceAs (Decidable (white c = false ∧ Readable fmt))
  | .space c :: fmt =>
    have := Readable.decidable fmt
    inferInstanceAs (Decidable (white c = true ∧ Readable fmt))
  | [.int _] => .isTrue trivial
  | .int _ :: .lit c :: fmt =>
    have := Readable.decidable (.lit c :: fmt)
    inferInstanceAs (Decidable (digit c = false ∧ Readable (.lit c :: fmt)))
  | .int _ :: .space c :: fmt =>
    have := Readable.decidable (.space c :: fmt)
    inferInstanceAs (Decidable (Readable (.space c :: fmt)))
  | .int _ :: .int _ :: _ => .isFalse id

/-- For each integer of the format, whether it is stored. -/
def flags : List Item → List Bool
  | [] => []
  | .int stored :: fmt => stored :: flags fmt
  | _ :: fmt => flags fmt

/-- How many integers the format takes. -/
def arity (fmt : List Item) : Nat := (flags fmt).length

/-- The integers that `sscanf` stores. -/
def kept (fmt : List Item) (args : List Int) : List Int :=
  ((flags fmt).zip args).filterMap fun p => if p.1 then some p.2 else none

theorem kept_cons (stored : Bool) (fmt : List Item) (v : Int) (args : List Int) :
    kept (.int stored :: fmt) (v :: args)
      = if stored then v :: kept fmt args else kept fmt args := by
  cases stored <;> rfl

theorem Readable.tail {i : Item} {fmt : List Item} (h : Readable (i :: fmt)) : Readable fmt := by
  cases i with
  | lit _ => exact h.2
  | space _ => exact h.2
  | int _ =>
    cases fmt with
    | nil => trivial
    | cons j fmt =>
      cases j with
      | lit _ => exact h.2
      | space _ => exact h
      | int _ => exact h.elim

/-- What is printed behind an integer does not go on with its digits. -/
theorem stops_printf {stored : Bool} {fmt : List Item} (h : Readable (.int stored :: fmt))
    (args : List Int) : Stops (printf fmt args) := by
  intro c hc
  cases fmt with
  | nil => cases hc
  | cons i fmt =>
    cases i with
    | lit d =>
      rw [← Option.some.inj hc]
      exact h.1
    | space d =>
      rw [← Option.some.inj hc]
      have hwhite := (show white d = true ∧ Readable fmt from h).1
      by_contra hdigit
      rw [digit_not_white (Bool.not_eq_false _ ▸ hdigit)] at hwhite
      cases hwhite
    | int _ => exact h.elim

/-- White space in front of a printed text is passed over by the item that reads it. -/
theorem sscanf_dropWhile {fmt : List Item} (h : Readable fmt) {args : List Int}
    (hargs : args.length = arity fmt) :
    sscanf fmt ((printf fmt args).dropWhile white) = sscanf fmt (printf fmt args) := by
  cases fmt with
  | nil => rfl
  | cons i fmt =>
    cases i with
    | lit c =>
      have hc : ¬ white c = true := by
        rw [h.1]
        decide
      rw [printf, List.dropWhile_cons_of_neg hc]
    | space c =>
      have hidem : ∀ bs : Bytes, (bs.dropWhile white).dropWhile white = bs.dropWhile white :=
        fun bs => List.dropWhile_eq_self_iff.mpr fun hl => List.dropWhile_get_zero_not _ _ hl
      rw [sscanf, sscanf, hidem]
    | int stored =>
      cases args with
      | nil => cases hargs
      | cons v args =>
        obtain ⟨c, cs, hcons, hwhite⟩ := decimal_cons v
        rw [printf, hcons, List.cons_append, List.dropWhile_cons_of_neg (by rw [hwhite]; decide)]

/-- **What was printed is read back.** -/
theorem sscanf_printf {fmt : List Item} (h : Readable fmt) {args : List Int}
    (hargs : args.length = arity fmt) : sscanf fmt (printf fmt args) = kept fmt args := by
  induction fmt generalizing args with
  | nil => rfl
  | cons i fmt ih =>
    cases i with
    | lit c =>
      rw [printf, sscanf, if_pos rfl]
      exact ih h.tail hargs
    | space c =>
      rw [printf, sscanf, List.dropWhile_cons_of_pos h.1, sscanf_dropWhile h.tail hargs]
      exact ih h.tail hargs
    | int stored =>
      cases args with
      | nil => cases hargs
      | cons v args =>
        rw [printf, sscanf, scanInt_decimal v (stops_printf h args)]
        show (if stored = true then v :: sscanf fmt _ else sscanf fmt _) = _
        rw [ih h.tail (Nat.succ.inj hargs), kept_cons]

/-! ## §4. The printed text. -/

/-- `%*d` instead of `%d`, or the other way round. -/
def Item.plain : Item → Item
  | .int _ => .int true
  | i => i

/-- Which integers are stored does not show in the text. -/
theorem printf_plain (fmt : List Item) (args : List Int) :
    printf (fmt.map Item.plain) args = printf fmt args := by
  induction fmt generalizing args with
  | nil => rfl
  | cons i fmt ih =>
    cases i with
    | lit c => exact congrArg (c :: ·) (ih args)
    | space c => exact congrArg (c :: ·) (ih args)
    | int stored =>
      cases args with
      | nil => exact ih []
      | cons v args => exact congrArg (decimal v ++ ·) (ih args)

/-- The bytes of a printed text. -/
theorem mem_printf {fmt : List Item} {args : List Int} {c : UInt8} (h : c ∈ printf fmt args) :
    Item.lit c ∈ fmt ∨ Item.space c ∈ fmt ∨ digit c = true ∨ c = 45 := by
  have hback : ∀ {i : Item} {fmt : List Item},
      (Item.lit c ∈ fmt ∨ Item.space c ∈ fmt ∨ digit c = true ∨ c = 45) →
      Item.lit c ∈ i :: fmt ∨ Item.space c ∈ i :: fmt ∨ digit c = true ∨ c = 45 := fun h =>
    h.imp (List.mem_cons_of_mem _) fun h => h.imp_left (List.mem_cons_of_mem _)
  induction fmt generalizing args with
  | nil => cases h
  | cons i fmt ih =>
    cases i with
    | lit d =>
      rcases List.mem_cons.mp h with rfl | h
      · exact .inl List.mem_cons_self
      · exact hback (ih h)
    | space d =>
      rcases List.mem_cons.mp h with rfl | h
      · exact .inr (.inl List.mem_cons_self)
      · exact hback (ih h)
    | int stored =>
      cases args with
      | nil => exact hback (ih h)
      | cons v args =>
        rcases List.mem_append.mp h with h | h
        · cases v with
          | ofNat n => exact .inr (.inr (.inl (digit_digits h)))
          | negSucc n =>
            rcases List.mem_cons.mp h with h | h
            · exact .inr (.inr (.inr h))
            · exact .inr (.inr (.inl (digit_digits h)))
        · exact hback (ih h)

end SystemOS.Lib.Scanf
