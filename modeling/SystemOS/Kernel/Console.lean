/-
  SystemOS.Kernel.Console — the texts that drivers hand to `printf`.

  `printfHex` prints a byte as two digits; it is modelled by the text that it passes on.

  Main results:
    * `readHex_printfHex`   — a byte is read back from its two digits.
    * `dump_inj`            — a dump shows which bytes were dumped.
-/
import Mathlib.Data.UInt
import Mathlib.Data.List.Basic

namespace SystemOS.Kernel.Console

/-- Characters. -/
abbrev Text := List UInt8

/-- A string literal. -/
def text (s : String) : Text := s.toUTF8.toList

/-- The digits, `char* hex = "0123456789ABCDEF"`. -/
def hex : Text :=
  [0x30, 0x31, 0x32, 0x33, 0x34, 0x35, 0x36, 0x37, 0x38, 0x39, 0x41, 0x42, 0x43, 0x44, 0x45, 0x46]

/-- `hex[i & 0xF]`. -/
def hexDigit (i : UInt8) : UInt8 := hex.getD (i &&& 0xF).toNat 0

def printfHex (key : UInt8) : Text := [hexDigit (key >>> 4), hexDigit key]

/-- The value of a digit. -/
def readDigit (c : UInt8) : Nat := hex.idxOf c

/-- The number that a text of digits stands for. -/
def readHex (t : Text) : Nat := t.foldl (fun n c => 16 * n + readDigit c) 0

theorem readDigit_hexDigit (i : UInt8) : readDigit (hexDigit i) = i.toNat % 16 := by
  have hmod : (i &&& 0xF).toNat = i.toNat % 16 := by
    rw [UInt8.toNat_and]
    exact Nat.and_two_pow_sub_one_eq_mod i.toNat 4
  have hdigits : ∀ j < 16, hex.idxOf (hex.getD j 0) = j := by decide
  unfold readDigit hexDigit
  rw [hmod]
  exact hdigits _ (Nat.mod_lt _ (by omega))

theorem readHex_printfHex (key : UInt8) : readHex (printfHex key) = key.toNat := by
  have hshift : (key >>> 4).toNat = key.toNat / 16 := by
    rw [UInt8.toNat_shiftRight]
    exact Nat.shiftRight_eq_div_pow key.toNat 4
  have hlt : key.toNat < 256 := key.toNat_lt
  show 16 * (16 * 0 + readDigit (hexDigit (key >>> 4))) + readDigit (hexDigit key) = key.toNat
  rw [readDigit_hexDigit, readDigit_hexDigit, hshift]
  omega

/-- The bytes `bs` as a dump prints them: two digits and a blank each. -/
def dump (bs : List UInt8) : Text := bs.flatMap fun b => printfHex b ++ [0x20]

@[simp] theorem dump_nil : dump [] = [] := rfl

theorem dump_cons (b : UInt8) (bs : List UInt8) :
    dump (b :: bs) = printfHex b ++ [0x20] ++ dump bs := List.flatMap_cons

/-- A dump shows which bytes were dumped. -/
theorem dump_inj {bs cs : List UInt8} (h : dump bs = dump cs) : bs = cs := by
  induction bs generalizing cs with
  | nil =>
    cases cs with
    | nil => rfl
    | cons c cs => cases h
  | cons b bs ih =>
    cases cs with
    | nil => cases h
    | cons c cs =>
      rw [dump_cons, dump_cons] at h
      obtain ⟨hhead, htail⟩ := List.append_inj h rfl
      obtain ⟨hdigits, -⟩ := List.append_inj hhead rfl
      have hbc : b.toNat = c.toNat := by
        rw [← readHex_printfHex, ← readHex_printfHex, hdigits]
      rw [UInt8.toNat_inj.mp hbc, ih htail]

end SystemOS.Kernel.Console
