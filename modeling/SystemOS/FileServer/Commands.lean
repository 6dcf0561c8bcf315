/-
  SystemOS.FileServer.Commands — what `handleClient` makes of a writeT command.

  The syntax is `writeT <file> <line #> <string>`, and the line number may be left out.  The parser
  takes one word for each of the three, so that a text keeps its first word only and takes the place
  of a line number that is left out.

  Main results:
    * `handleRequest_writeT` — the call that a writeT command leads to.
    * `writeT_iff`           — when it is the call that the syntax describes.
-/
import Mathlib.Data.Int.Basic
import SystemOS.Lib.Strtok
import SystemOS.FileServer.Handler

namespace SystemOS.FileServer.Commands

open SystemOS.Lib.Lines SystemOS.Lib.Strings SystemOS.Lib.Strtok SystemOS.Lib.Buffers
open SystemOS.FileServer.FileRequests (text text_ne)
open SystemOS.FileServer.Handler

/-! ## §1. The command. -/

/-- Decimal numerals and their values. -/
inductive Numeral : Bytes → Int → Prop
  | plain {ds : Bytes} : ds ≠ [] → (∀ c ∈ ds, isdigit c = true) → Numeral ds (digitsValue ds)
  | minus {ds : Bytes} : ds ≠ [] → (∀ c ∈ ds, isdigit c = true) →
      Numeral (45 :: ds) (- digitsValue ds)
  | plus {ds : Bytes} : ds ≠ [] → (∀ c ∈ ds, isdigit c = true) →
      Numeral (43 :: ds) (digitsValue ds)

/-- The line number, if there is one, and what it stands for. -/
inductive LineNumber : Option Bytes → Int → Prop
  | given {t : Bytes} {n : Int} : Numeral t n → LineNumber (some t) n
  | omitted : LineNumber none 0

/-- The words of the command in front of the text. -/
def argumentsBefore (file : Bytes) : Option Bytes → List Bytes
  | some t => [text "writeT", file, t]
  | none => [text "writeT", file]

/-- `writeT file [n] s`. -/
def writeTCommand (file : Bytes) (number : Option Bytes) (s : Bytes) : Bytes :=
  (argumentsBefore file number).foldr (fun word rest => word ++ 32 :: rest) s

/-- The path, the line number and the text with which `write_server_file` is called. -/
def writeCall (dir_name : Bytes) (req : Request) : Option (Bytes × Int × Bytes) :=
  match tokens req with
  | request_word :: file_name :: temp :: string :: _ =>
    if request_word = text "writeT" then some (serverPath dir_name file_name, atoi temp, string)
    else none
  | _ => none

/-- **The call of a writeT command.** -/
theorem handleRequest_writeT (w : World) (dir_name : Bytes) (server_pid : Nat) (mem : Memory)
    (req : Request) (message : Bytes) {args : List Bytes}
    (h : tokens req = text "writeT" :: args) :
    handleRequest w dir_name server_pid mem req message
      = .replied (match writeCall dir_name req with
          | some (path, lineNum, string) => write_server_file w message path lineNum string
          | none => invalidCommand message) false mem [] := by
  unfold handleRequest writeCall
  rw [h]
  simp only
  iterate 4 rw [if_neg (text_ne (by decide))]
  rw [if_pos trivial]
  match args with
  | [] => rfl
  | [_] => rfl
  | [_, _] => rfl
  | file_name :: temp :: string :: rest => simp only [if_true]

variable {dir_name file s t : Bytes} {number : Option Bytes} {n : Int} {req : Request}

/-! ## §2. Line numbers. -/

theorem digit_not_space {c : UInt8} (h : isdigit c = true) : isspace c = false := by
  unfold isdigit at h
  unfold isspace
  rw [Bool.and_eq_true, decide_eq_true_eq, decide_eq_true_eq] at h
  have h1 : 48 ≤ c.toNat := h.1
  have hne : c ≠ 32 := by
    rintro rfl
    exact absurd h1 (by decide)
  have hgt : ¬ c ≤ 13 := by
    intro hle
    have h2 : c.toNat ≤ 13 := hle
    omega
  rw [beq_false_of_ne hne, decide_eq_false hgt, Bool.and_false, Bool.or_false]

/-- `atoi` of a numeral, as far as an `int` can hold it. -/
theorem atoi_numeral (h : Numeral t n) :
    atoi t = (max (-2 ^ 63) (min (2 ^ 63 - 1) n)).bmod (2 ^ 32) := by
  cases h with
  | plain hne hds =>
    cases t with
    | nil => exact absurd rfl hne
    | cons c cs =>
      have hc := hds c List.mem_cons_self
      have h45 : c ≠ 45 := by
        rintro rfl
        exact absurd hc (by decide)
      have h43 : c ≠ 43 := by
        rintro rfl
        exact absurd hc (by decide)
      unfold atoi
      rw [List.dropWhile_cons_of_neg (by rw [digit_not_space hc]; decide)]
      simp only
      split
      · next heq => exact absurd (List.cons.inj heq).1 h45
      · next heq => exact absurd (List.cons.inj heq).1 h43
      · rw [List.takeWhile_eq_self_iff.mpr hds]
  | minus hne hds =>
    unfold atoi
    rw [List.dropWhile_cons_of_neg (by decide)]
    simp only
    rw [List.takeWhile_eq_self_iff.mpr hds]
  | plus hne hds =>
    unfold atoi
    rw [List.dropWhile_cons_of_neg (by decide)]
    simp only
    rw [List.takeWhile_eq_self_iff.mpr hds]

/-- `atoi` returns an `int`. -/
theorem atoi_range (t : Bytes) : -2 ^ 31 ≤ atoi t ∧ atoi t < 2 ^ 31 := by
  unfold atoi
  simp only
  constructor
  · exact Int.le_bmod (by decide)
  · exact Int.bmod_lt (by decide)

/-- A line number is understood exactly when it is an `int`. -/
theorem atoi_eq_iff (h : Numeral t n) : atoi t = n ↔ -2 ^ 31 ≤ n ∧ n < 2 ^ 31 := by
  constructor
  · intro heq
    rw [← heq]
    exact atoi_range t
  · rintro ⟨hlo, hhi⟩
    rw [atoi_numeral h, min_eq_right (by omega), max_eq_right (by omega)]
    exact Int.bmod_eq_of_le (by omega) (by omega)

/-- A numeral is a word. -/
theorem Numeral.word (h : Numeral t n) : t ≠ [] ∧ 32 ∉ t := by
  have hdigits : ∀ ds : Bytes, (∀ c ∈ ds, isdigit c = true) → 32 ∉ ds := fun ds hds hmem =>
    absurd (hds 32 hmem) (by decide)
  cases h with
  | plain hne hds => exact ⟨hne, hdigits _ hds⟩
  | minus hne hds =>
    refine ⟨List.cons_ne_nil _ _, ?_⟩
    rw [List.mem_cons, not_or]
    exact ⟨by decide, hdigits _ hds⟩
  | plus hne hds =>
    refine ⟨List.cons_ne_nil _ _, ?_⟩
    rw [List.mem_cons, not_or]
    exact ⟨by decide, hdigits _ hds⟩

/-! ## §3. What the parser makes of it. -/

/-- Words in front of a text are the words in front of its words. -/
theorem words_foldr {ws : List Bytes} (h : ∀ word ∈ ws, word ≠ [] ∧ 32 ∉ word) (s : Bytes) :
    words 32 (ws.foldr (fun word rest => word ++ 32 :: rest) s) = ws ++ words 32 s := by
  induction ws with
  | nil => rfl
  | cons word ws ih =>
    obtain ⟨⟨hne, hspace⟩, hws⟩ := List.forall_mem_cons.mp h
    rw [List.foldr_cons, words_append, words_word hne hspace, ih hws]
    rfl

/-- A text is a word of its own exactly when it has no spaces. -/
theorem text_not_word (h : s ∈ words 32 s) : words 32 s = [s] := by
  obtain ⟨hne, hbytes⟩ := words_spec h
  exact words_word hne fun hmem => (hbytes 32 hmem).2 rfl

theorem tokens_writeT (hfile : file ≠ [] ∧ 32 ∉ file) (hnumber : LineNumber number n)
    (hreq : cstr req.command = writeTCommand file number s) :
    tokens req = argumentsBefore file number ++ words 32 s := by
  unfold tokens writeTCommand at *
  rw [hreq]
  refine words_foldr ?_ s
  have hcommand : text "writeT" ≠ [] ∧ 32 ∉ text "writeT" := by decide +kernel
  cases hnumber with
  | given h => simpa [argumentsBefore] using ⟨hcommand, hfile, h.word⟩
  | omitted => simpa [argumentsBefore] using ⟨hcommand, hfile⟩

/-- **When a writeT command is understood**: the line number is given and an `int`, and the text is
    one word. -/
theorem writeT_iff (dir_name file s : Bytes) (number : Option Bytes) (n : Int) (req : Request)
    (hfile : file ≠ [] ∧ 32 ∉ file) (hs : words 32 s ≠ []) (hnumber : LineNumber number n)
    (hreq : cstr req.command = writeTCommand file number s) :
    writeCall dir_name req = some (serverPath dir_name file, n, s)
      ↔ number.isSome ∧ (-2 ^ 31 ≤ n ∧ n < 2 ^ 31) ∧ 32 ∉ s := by
  have htokens := tokens_writeT hfile hnumber hreq
  obtain ⟨word, rest, hwords⟩ := List.exists_cons_of_ne_nil hs
  rw [hwords] at htokens
  unfold writeCall
  rw [htokens]
  cases hnumber with
  | @given t n h =>
    simp only [argumentsBefore, List.cons_append, List.nil_append, if_true, Option.some.injEq,
      Prod.mk.injEq, true_and, Option.isSome_some, atoi_eq_iff h]
    refine and_congr_right fun _ => ?_
    constructor
    · rintro rfl
      have hmem : word ∈ words 32 word := by
        rw [hwords]
        exact List.mem_cons_self
      exact fun hspace => ((words_spec hmem).2 32 hspace).2 rfl
    · intro hspace
      have hne : s ≠ [] := by
        rintro rfl
        exact hs rfl
      rw [words_word hne hspace] at hwords
      exact (List.cons.inj hwords).1.symm
  | omitted =>
    -- the first word of the text is taken for the line number
    refine iff_of_false ?_ (by simp)
    cases rest with
    | nil => simp [argumentsBefore]
    | cons second rest =>
      simp only [argumentsBefore, List.cons_append, List.nil_append, if_true, Option.some.injEq,
        Prod.mk.injEq, true_and, not_and]
      rintro _ rfl
      have hmem : second ∈ words 32 second := by
        rw [hwords]
        exact List.mem_cons_of_mem _ List.mem_cons_self
      rw [text_not_word hmem] at hwords
      cases hwords

/-- `writeT a 5 b`. -/
theorem writeT_iff_word :
    writeCall [100] ⟨writeTCommand [97] (some [53]) [98], 1⟩
        = some (serverPath [100] [97], digitsValue [53], [98])
      ↔ (some ([53] : Bytes)).isSome
        ∧ (-2 ^ 31 ≤ digitsValue [53] ∧ digitsValue [53] < 2 ^ 31) ∧ 32 ∉ ([98] : Bytes) :=
  writeT_iff [100] [97] [98] (some [53]) _ _ (by decide) (by decide)
    (.given (.plain (by decide) (List.forall_mem_singleton.mpr rfl))) (by decide +kernel)

/-- `writeT a b c`: the text loses its first word. -/
theorem text_split : ¬ ∀ (dir_name file s : Bytes) (number : Option Bytes) (n : Int) (req : Request),
    file ≠ [] ∧ 32 ∉ file → words 32 s ≠ [] → LineNumber number n →
      (number = none → ∀ word ∈ (words 32 s).head?, ∀ m, ¬ Numeral word m) →
      cstr req.command = writeTCommand file number s → req.command.length ≤ 50 →
      writeCall dir_name req = some (serverPath dir_name file, n, s) := by
  intro hclaim
  have hcall := hclaim [100] [97] [98, 32, 99] none 0
    ⟨writeTCommand [97] none [98, 32, 99] ++ [0], 1⟩ (by decide) (by decide) .omitted ?_
    (by decide +kernel) (by decide +kernel)
  · exact absurd hcall (by decide +kernel)
  · intro _ word hword m hm
    obtain rfl : [98] = word := Option.some.inj hword
    cases hm with
    | plain _ hds => exact absurd (hds 98 List.mem_cons_self) (by decide)

end SystemOS.FileServer.Commands
