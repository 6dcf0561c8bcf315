/-
  SystemOS.Lib.Utf8 — the bytes of a text.

  A string literal of a program is the list of its bytes in UTF-8.

  Key results:
    * `utf8_inj`    — different texts have different bytes.
    * `utf8_length` — their number is the size of the text.
    * `utf8_ofList` — an ASCII character is one byte.
-/
import Mathlib.Data.List.Basic

namespace SystemOS.Lib.Utf8

theorem byteArray_loop (bs : ByteArray) (i : Nat) (r : List UInt8) :
    ByteArray.toList.loop bs i r = r.reverse ++ bs.data.toList.drop i := by
  fun_induction ByteArray.toList.loop bs i r with
  | case1 i r hi ih =>
    have hlt : i < bs.data.toList.length := hi
    have hget : bs.get! i = bs.data.toList[i] := getElem!_pos bs.data i hi
    rw [ih, List.reverse_cons, List.append_assoc, List.drop_eq_getElem_cons hlt, hget]
    rfl
  | case2 i r hi =>
    have hle : bs.data.toList.length ≤ i := Nat.not_lt.mp hi
    rw [List.drop_of_length_le hle, List.append_nil]

theorem byteArray_toList (bs : ByteArray) : bs.toList = bs.data.toList := byteArray_loop bs 0 []

/-- **Different texts have different bytes.** -/
theorem utf8_inj {s t : String} : s.toUTF8.toList = t.toUTF8.toList ↔ s = t := by
  rw [byteArray_toList, byteArray_toList, Array.toList_inj]
  constructor
  · intro h
    exact String.toByteArray_inj.mp (ByteArray.ext h)
  · intro h
    rw [h]

theorem utf8_length (s : String) : s.toUTF8.toList.length = s.utf8ByteSize := by
  rw [byteArray_toList]
  rfl

/-- The bytes of a text of ASCII characters. -/
theorem utf8_ofList {cs : List Char} (h : ∀ c ∈ cs, c.utf8Size = 1) :
    (String.ofList cs).toUTF8.toList = cs.map fun c => c.val.toUInt8 := by
  rw [byteArray_toList, String.toUTF8_eq_toByteArray, String.toByteArray_ofList, List.utf8Encode,
    List.toList_data_toByteArray]
  induction cs with
  | nil => rfl
  | cons c cs ih =>
    obtain ⟨hc, hcs⟩ := List.forall_mem_cons.mp h
    rw [List.flatMap_cons, String.utf8EncodeChar_eq_singleton hc, ih hcs]
    rfl

end SystemOS.Lib.Utf8
