import QarCore.DevKit.Elf2qar

/-!
# One store of elf2qar

`image_store` for an image at any address.  The test of the bound adds address and length in 32 bits.
-/

namespace QarCore

namespace Elf2qar

variable {img img' : Image} {addr len : Nat} {data : List Byte}

/-- The block is in the image, all of it within the buffer, and nothing else has changed. -/
structure Stored (img : Image) (addr : Nat) (data : List Byte) (img' : Image) : Prop where
  above : img.baseAddr ≤ addr
  within : addr - img.baseAddr + data.length ≤ 4 * img.sizeWords
  sameBase : img'.baseAddr = img.baseAddr
  sameSize : img'.sizeWords = img.sizeWords
  inside : ∀ k (hk : k < data.length), img'.buffer (addr - img.baseAddr + k) = data[k]
  outside : ∀ k, k < addr - img.baseAddr ∨ addr - img.baseAddr + data.length ≤ k → img'.buffer k = img.buffer k

/-- The store leaves the image as it is, or puts the block into it. -/
def StoresWithin (img : Image) (addr : Nat) (data : List Byte) : Prop :=
  ∃ img', imageStore img addr data = .ok img' ∧ (img' = img ∨ Stored img addr data img')

/-- The block starts above the base and goes past the end of the address space, to an address that is
not above the end of the image. -/
def Wraps (img : Image) (addr len : Nat) : Prop :=
  img.baseAddr ≤ addr ∧ img.baseAddr + 4 * img.sizeWords < 2 ^ 32 ∧ 2 ^ 32 ≤ addr + len ∧
    addr + len - 2 ^ 32 ≤ img.baseAddr + 4 * img.sizeWords

theorem stored_of_le (ha : img.baseAddr ≤ addr) (hl : addr - img.baseAddr + data.length ≤ 4 * img.sizeWords) :
    Stored img addr data { img with buffer := ByteImage.store img.buffer (addr - img.baseAddr) data } where
  above := ha
  within := hl
  sameBase := rfl
  sameSize := rfl
  inside := ByteImage.store_inside _ _ _
  outside _ hk := ByteImage.store_outside _ hk

-- A block that passes the test ends within the buffer, unless its end wraps around.
theorem within_of_not_wraps (hbase : img.baseAddr < 2 ^ 32) (hsize : 4 * img.sizeWords < 2 ^ 32)
    (haddr : addr < 2 ^ 32) (hlen : len < 2 ^ 32) (habove : img.baseAddr ≤ addr)
    (htest : (addr + len) % 2 ^ 32 ≤ img.limit) (hwraps : ¬ Wraps img addr len) :
    addr - img.baseAddr + len ≤ 4 * img.sizeWords := by
  unfold Wraps at hwraps
  unfold Image.limit at htest
  omega

theorem Wraps.passes (h : Wraps img addr len) (haddr : addr < 2 ^ 32) (hlen : len < 2 ^ 32) :
    img.baseAddr ≤ addr ∧ (addr + len) % 2 ^ 32 ≤ img.limit ∧
      4 * img.sizeWords < addr - img.baseAddr + len := by
  obtain ⟨habove, hend, hwrap, hlow⟩ := h
  unfold Image.limit
  refine ⟨habove, ?_, ?_⟩ <;> omega

/-- A store keeps within the image exactly when the end of its block does not wrap around. -/
theorem storesWithin_iff (hbase : img.baseAddr < 2 ^ 32) (hsize : 4 * img.sizeWords < 2 ^ 32)
    (haddr : addr < 2 ^ 32) (hlen : data.length < 2 ^ 32) :
    StoresWithin img addr data ↔ ¬ Wraps img addr data.length := by
  constructor
  · rintro ⟨img', hstore, -⟩ hwraps
    obtain ⟨habove, htest, hpast⟩ := hwraps.passes haddr hlen
    unfold imageStore at hstore
    rw [if_neg (by omega), if_neg (by omega)] at hstore
    cases hstore
  · intro hwraps
    by_cases hdrop : addr < img.baseAddr ∨ img.limit < (addr + data.length) % 2 ^ 32
    · exact ⟨img, if_pos hdrop, .inl rfl⟩
    · rw [not_or, not_lt, not_lt] at hdrop
      have hwithin := within_of_not_wraps hbase hsize haddr hlen hdrop.1 hdrop.2 hwraps
      refine ⟨_, ?_, .inr (stored_of_le hdrop.1 hwithin)⟩
      unfold imageStore
      rw [if_neg (by omega), if_pos (by omega)]

/-- An image of 64 words, at `base`. -/
def emptyImage (base : Nat) : Image := ⟨base, 64, fun _ ↦ 0⟩

theorem emptyImage_stores : StoresWithin (emptyImage 0xFFFFFF00) 0xFFFFFFFC [1, 2, 3, 4] :=
  (storesWithin_iff (by decide) (by decide) (by decide) (by decide)).mpr (by unfold Wraps; decide)

/-- A segment at `0xFFFFFFFF` whose length takes its end to the address 0 goes to an offset far behind
the buffer. -/
theorem emptyImage_overrun :
    imageStore (emptyImage 0) (0xFFFFFFFF - programEnd) (List.replicate 0x20000001 0) = .error .undefined ∧
      ¬ StoresWithin (emptyImage 0) (0xFFFFFFFF - programEnd) (List.replicate 0x20000001 0) := by
  have hover : imageStore (emptyImage 0) (0xFFFFFFFF - programEnd) (List.replicate 0x20000001 0) =
      .error .undefined := by
    unfold imageStore
    rw [List.length_replicate, if_neg (by decide)]
    exact if_neg (by decide)
  refine ⟨hover, ?_⟩
  rintro ⟨img', hstore, -⟩
  rw [hover] at hstore
  cases hstore

end Elf2qar

end QarCore
