/-
  SystemOS.Kernel.Gdt — the entries of the global descriptor table.

  The base and the limit are scattered over eight bytes.  A limit above 65536 is kept in pages of
  4096 bytes, of which the low bits count as ones: the constructor takes one page off when they are
  not.

  Main results:
    * `limit_construct` — the limit that is encoded, and the granularity, come back.
    * `descriptor_fields` — what `Base`, `Limit` and the access byte are.
-/
import SystemOS.Lib.Words

namespace SystemOS.Kernel.Gdt

open SystemOS.Lib.Words

/-! ## §1. The descriptor. -/

/-- The packed object, byte by byte; the access byte is `target5`. -/
structure SegmentDescriptor where
  target0 : UInt8
  target1 : UInt8
  target2 : UInt8
  target3 : UInt8
  target4 : UInt8
  target5 : UInt8
  target6 : UInt8
  target7 : UInt8

/-- The flags of byte 6 and the limit that is encoded. -/
def encodedLimit (limit : UInt32) : UInt8 × UInt32 :=
  if limit ≤ 65536 then (0x40, limit)
  else (0xC0, if limit &&& 0xFFF ≠ 0xFFF then (limit >>> 12) - 1 else limit >>> 12)

namespace SegmentDescriptor

/-- The constructor. -/
def construct (base limit : UInt32) (type : UInt8) : SegmentDescriptor :=
  let (flags, limit) := encodedLimit limit
  { target0 := (limit &&& 0xFF).toUInt8
    target1 := ((limit >>> 8) &&& 0xFF).toUInt8
    target6 := flags ||| ((limit >>> 16) &&& 0xF).toUInt8
    target2 := (base &&& 0xFF).toUInt8
    target3 := ((base >>> 8) &&& 0xFF).toUInt8
    target4 := ((base >>> 16) &&& 0xFF).toUInt8
    target7 := ((base >>> 24) &&& 0xFF).toUInt8
    target5 := type }

def Base (d : SegmentDescriptor) : UInt32 :=
  let result := d.target7.toUInt32
  let result := (result <<< 8) + d.target4.toUInt32
  let result := (result <<< 8) + d.target3.toUInt32
  (result <<< 8) + d.target2.toUInt32

def Limit (d : SegmentDescriptor) : UInt32 :=
  let result := (d.target6 &&& 0xF).toUInt32
  let result := (result <<< 8) + d.target1.toUInt32
  let result := (result <<< 8) + d.target0.toUInt32
  if d.target6 &&& 0xC0 = 0xC0 then (result <<< 12) ||| 0xFFF else result

end SegmentDescriptor

/-! ## §2. Bytes and their sums. -/

/-- The low byte of a word. -/
theorem lowByte_toNat (v : UInt32) : (v &&& 0xFF).toUInt8.toNat = v.toNat % 256 := by
  rw [UInt32.toNat_toUInt8, UInt32.toNat_and]
  show (v.toNat &&& (2 ^ 8 - 1)) % 2 ^ 8 = _
  rw [Nat.and_two_pow_sub_one_eq_mod, Nat.mod_mod]

/-- The low nibble of a word. -/
theorem lowNibble_toNat (v : UInt32) : (v &&& 0xF).toUInt8.toNat = v.toNat % 16 := by
  rw [UInt32.toNat_toUInt8, UInt32.toNat_and]
  show (v.toNat &&& (2 ^ 4 - 1)) % 2 ^ 8 = _
  rw [Nat.and_two_pow_sub_one_eq_mod]
  omega

/-- A word that is shifted down. -/
theorem shift_toNat (v : UInt32) (k : UInt32) (hk : k.toNat < 32) :
    (v >>> k).toNat = v.toNat / 2 ^ k.toNat := by
  rw [UInt32.toNat_shiftRight, Nat.mod_eq_of_lt hk, Nat.shiftRight_eq_div_pow]

/-- A word with one byte more at its low end. -/
theorem shift_add (v : UInt32) (b : UInt8) (h : v.toNat < 2 ^ 24) :
    ((v <<< 8) + b.toUInt32).toNat = 256 * v.toNat + b.toNat := by
  have hb := b.toNat_lt
  simp [Nat.shiftLeft_eq]
  omega

/-- The flags and a nibble in one byte. -/
theorem flags_or {n : UInt8} (hn : n.toNat < 16) : ∀ flags : UInt8, flags = 0x40 ∨ flags = 0xC0 →
    (flags ||| n) &&& 0xF = n ∧ ((flags ||| n) &&& 0xC0 = 0xC0 ↔ flags = 0xC0) := by
  intro flags hflags
  have hall : ∀ m < 16, (flags ||| UInt8.ofNat m) &&& 0xF = UInt8.ofNat m
      ∧ ((flags ||| UInt8.ofNat m) &&& 0xC0 = 0xC0 ↔ flags = 0xC0) := by
    rcases hflags with rfl | rfl
    · decide
    · decide
  have h := hall n.toNat hn
  rwa [UInt8.ofNat_toNat] at h

/-- A page number and a page of ones below it. -/
theorem pages_or (v : UInt32) (h : v.toNat < 2 ^ 20) :
    ((v <<< 12) ||| 0xFFF).toNat = 4096 * v.toNat + 4095 := by
  rw [UInt32.toNat_or, UInt32.toNat_shiftLeft]
  show v.toNat <<< 12 % 2 ^ 32 ||| 4095 = _
  have hshift : v.toNat <<< 12 = 4096 * v.toNat := by rw [Nat.shiftLeft_eq, Nat.mul_comm]
  rw [Nat.mod_eq_of_lt (by omega), ← Nat.shiftLeft_add_eq_or_of_lt (by decide), hshift]

/-! ## §3. The accessors. -/

namespace SegmentDescriptor

theorem Base_toNat (d : SegmentDescriptor) : d.Base.toNat = d.target2.toNat
    + 2 ^ 8 * d.target3.toNat + 2 ^ 16 * d.target4.toNat + 2 ^ 24 * d.target7.toNat := by
  have h7 : d.target7.toUInt32.toNat = d.target7.toNat := UInt8.toNat_toUInt32 _
  have h4lt := d.target4.toNat_lt
  have h3lt := d.target3.toNat_lt
  have h7lt := d.target7.toNat_lt
  have h4 := shift_add d.target7.toUInt32 d.target4 (by omega)
  have h3 := shift_add (d.target7.toUInt32 <<< 8 + d.target4.toUInt32) d.target3 (by omega)
  unfold Base
  simp only
  rw [shift_add _ _ (by omega), h3, h4, h7]
  omega

/-- The limit as it is read, for a byte 6 with the flags and the nibble `n`. -/
theorem Limit_toNat (d : SegmentDescriptor) {flags n : UInt8}
    (hflags : flags = 0x40 ∨ flags = 0xC0) (hn : n.toNat < 16) (h6 : d.target6 = flags ||| n) :
    d.Limit.toNat = if flags = 0xC0
      then 4096 * (d.target0.toNat + 2 ^ 8 * d.target1.toNat + 2 ^ 16 * n.toNat) + 4095
      else d.target0.toNat + 2 ^ 8 * d.target1.toNat + 2 ^ 16 * n.toNat := by
  obtain ⟨hnibble, hhigh⟩ := flags_or hn flags hflags
  have h0lt := d.target0.toNat_lt
  have h1lt := d.target1.toNat_lt
  have hn' : n.toUInt32.toNat = n.toNat := UInt8.toNat_toUInt32 _
  have h1 := shift_add n.toUInt32 d.target1 (by omega)
  have h0 := shift_add (n.toUInt32 <<< 8 + d.target1.toUInt32) d.target0 (by omega)
  unfold Limit
  simp only
  rw [h6, hnibble]
  by_cases hC : flags = 0xC0
  · rw [if_pos (hhigh.mpr hC), if_pos hC, pages_or _ (by omega)]
    omega
  · rw [if_neg (mt hhigh.mp hC), if_neg hC]
    omega

end SegmentDescriptor

/-- The low twelve bits are ones. -/
theorem ones_iff (limit : UInt32) : limit &&& 0xFFF = 0xFFF ↔ limit.toNat % 4096 = 4095 := by
  rw [← UInt32.toNat_inj, UInt32.toNat_and]
  show limit.toNat &&& (2 ^ 12 - 1) = 4095 ↔ _
  rw [Nat.and_two_pow_sub_one_eq_mod]

/-- A small limit is encoded in bytes. -/
theorem encodedLimit_bytes {limit : UInt32} (h : limit ≤ 65536) :
    encodedLimit limit = (0x40, limit) := if_pos h

/-- A large limit is encoded in pages; without its ones, one page less. -/
theorem encodedLimit_pages {limit : UInt32} (h : ¬ limit ≤ 65536) :
    (encodedLimit limit).1 = 0xC0 ∧ (encodedLimit limit).2.toNat
      = limit.toNat / 4096 - if limit &&& 0xFFF = 0xFFF then 0 else 1 := by
  have hlarge : 65536 < limit.toNat := Nat.not_le.mp h
  have hshift : (limit >>> 12).toNat = limit.toNat / 4096 := shift_toNat limit 12 (by decide)
  unfold encodedLimit
  rw [if_neg h]
  refine ⟨rfl, ?_⟩
  by_cases hones : limit &&& 0xFFF = 0xFFF
  · rw [if_pos hones, if_neg (not_not.mpr hones), Nat.sub_zero]
    exact hshift
  · have hone : (1 : UInt32) ≤ limit >>> 12 := by
      show (1 : UInt32).toNat ≤ (limit >>> 12).toNat
      rw [hshift]
      show 1 ≤ _
      omega
    rw [if_neg hones, if_pos hones]
    show ((limit >>> 12) - 1).toNat = _
    rw [UInt32.toNat_sub_of_le _ _ hone, hshift]
    rfl

/-- The encoded limit has twenty bits. -/
theorem encodedLimit_lt (limit : UInt32) : (encodedLimit limit).2.toNat < 2 ^ 20 := by
  have hlt := limit.toNat_lt
  by_cases h : limit ≤ 65536
  · have hle : limit.toNat ≤ 65536 := h
    rw [encodedLimit_bytes h]
    show limit.toNat < 2 ^ 20
    omega
  · have hpages := (encodedLimit_pages h).2
    omega

/-- **What the accessor makes of the encoded limit.** -/
theorem limit_construct (base limit : UInt32) (type : UInt8) :
    (SegmentDescriptor.construct base limit type).Limit.toNat
      = if (encodedLimit limit).1 = 0xC0 then 4096 * (encodedLimit limit).2.toNat + 4095
        else (encodedLimit limit).2.toNat := by
  have hlt := encodedLimit_lt limit
  have hflags : (encodedLimit limit).1 = 0x40 ∨ (encodedLimit limit).1 = 0xC0 := by
    by_cases h : limit ≤ 65536
    · exact .inl (congrArg Prod.fst (encodedLimit_bytes h))
    · exact .inr (encodedLimit_pages h).1
  have hnibble := lowNibble_toNat ((encodedLimit limit).2 >>> 16)
  have h16 := shift_toNat (encodedLimit limit).2 16 (by decide)
  have hread := (SegmentDescriptor.construct base limit type).Limit_toNat hflags
    (by omega : (((encodedLimit limit).2 >>> 16) &&& 0xF).toUInt8.toNat < 16) rfl
  have h0 : (SegmentDescriptor.construct base limit type).target0.toNat
      = (encodedLimit limit).2.toNat % 256 := lowByte_toNat _
  have h1 : (SegmentDescriptor.construct base limit type).target1.toNat
      = (encodedLimit limit).2.toNat / 2 ^ 8 % 256 := by
    show (((encodedLimit limit).2 >>> 8) &&& 0xFF).toUInt8.toNat = _
    rw [lowByte_toNat, shift_toNat _ 8 (by decide)]
    rfl
  -- three fields of the twenty bits
  have hsum : (encodedLimit limit).2.toNat % 256
      + 2 ^ 8 * ((encodedLimit limit).2.toNat / 2 ^ 8 % 256)
      + 2 ^ 16 * (((encodedLimit limit).2 >>> 16) &&& 0xF).toUInt8.toNat
      = (encodedLimit limit).2.toNat := by
    rw [hnibble, h16]
    show _ + _ + 2 ^ 16 * ((encodedLimit limit).2.toNat / 2 ^ 16 % 16) = _
    omega
  rw [hread, h0, h1, hsum]

theorem base_construct (base limit : UInt32) (type : UInt8) :
    (SegmentDescriptor.construct base limit type).Base = base := by
  have hlt := base.toNat_lt
  have hbyte : ∀ k : UInt32, k.toNat < 32 →
      ((base >>> k) &&& 0xFF).toUInt8.toNat = base.toNat / 2 ^ k.toNat % 256 := by
    intro k hk
    rw [lowByte_toNat, shift_toNat base k hk]
  apply UInt32.toNat_inj.mp
  rw [SegmentDescriptor.Base_toNat]
  show (base &&& 0xFF).toUInt8.toNat + 2 ^ 8 * ((base >>> 8) &&& 0xFF).toUInt8.toNat
    + 2 ^ 16 * ((base >>> 16) &&& 0xFF).toUInt8.toNat
    + 2 ^ 24 * ((base >>> 24) &&& 0xFF).toUInt8.toNat = base.toNat
  rw [lowByte_toNat, hbyte 8 (by decide), hbyte 16 (by decide), hbyte 24 (by decide)]
  show base.toNat % 256 + 2 ^ 8 * (base.toNat / 2 ^ 8 % 256) + 2 ^ 16 * (base.toNat / 2 ^ 16 % 256)
    + 2 ^ 24 * (base.toNat / 2 ^ 24 % 256) = base.toNat
  omega

/-- **The constructor and the accessors agree**: the base and the access byte come back; so does the
    limit, if it is small or ends in ones, and else the end of the page before it. -/
theorem descriptor_fields (base limit : UInt32) (type : UInt8) :
    (SegmentDescriptor.construct base limit type).Base = base
      ∧ (SegmentDescriptor.construct base limit type).target5 = type
      ∧ ((SegmentDescriptor.construct base limit type).Limit = limit
          ↔ limit ≤ 65536 ∨ limit &&& 0xFFF = 0xFFF)
      ∧ (¬ (limit ≤ 65536 ∨ limit &&& 0xFFF = 0xFFF) →
          (SegmentDescriptor.construct base limit type).Limit < limit
            ∧ limit - (SegmentDescriptor.construct base limit type).Limit ≤ 4095) := by
  have hread := limit_construct base limit type
  generalize (SegmentDescriptor.construct base limit type).Limit = read at hread
  refine ⟨base_construct base limit type, rfl, ?_⟩
  by_cases hsmall : limit ≤ 65536
  · rw [encodedLimit_bytes hsmall] at hread
    refine ⟨iff_of_true (UInt32.toNat_inj.mp hread) (.inl hsmall), fun h => absurd (.inl hsmall) h⟩
  · obtain ⟨hflags, hpages⟩ := encodedLimit_pages hsmall
    have hlarge : 65536 < limit.toNat := Nat.not_le.mp hsmall
    rw [if_pos hflags, hpages] at hread
    by_cases hones : limit &&& 0xFFF = 0xFFF
    · have hmod := (ones_iff limit).mp hones
      rw [if_pos hones] at hread
      have heq : read = limit := UInt32.toNat_inj.mp (by omega)
      exact ⟨iff_of_true heq (.inr hones), fun h => absurd (.inr hones) h⟩
    · have hmod := mt (ones_iff limit).mpr hones
      rw [if_neg hones] at hread
      have hlt : read < limit := by
        show read.toNat < limit.toNat
        omega
      have hle : read ≤ limit := by
        show read.toNat ≤ limit.toNat
        omega
      refine ⟨iff_of_false ?_ (not_or.mpr ⟨hsmall, hones⟩), fun _ => ⟨hlt, ?_⟩⟩
      · intro heq
        rw [heq] at hlt
        exact absurd hlt (UInt32.lt_irrefl _)
      · show (limit - read).toNat ≤ 4095
        rw [UInt32.toNat_sub_of_le _ _ hle]
        omega

/-- The code segment of the kernel, of 64 MiB. -/
example : (SegmentDescriptor.construct 0 (64 * 1024 * 1024) 0x9A).Limit = 64 * 1024 * 1024 - 1 := by
  decide

end SystemOS.Kernel.Gdt
