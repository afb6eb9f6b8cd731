import Mathlib

/-!
# Words in byte-addressed memory

A word of a message lies in memory as a run of bytes, and the machine that
reads it may put the most significant byte last.  The byte order is a
parameter throughout, so that what is proved about an in-place conversion
holds on either kind of host.
-/

namespace ByteOrder

abbrev Memory := ℕ → UInt8

inductive Endian
  | little
  | big
  deriving DecidableEq, Repr

/-! ## Values of byte strings -/

/-- Unsigned value of a byte string whose first byte is the most significant
one, as on the wire. -/
def bigValue (bytes : List UInt8) : ℕ :=
  bytes.foldl (fun value byte => value * 256 + byte.toNat) 0

/-- The `width` bytes of a number, most significant first. -/
def bigEncode : ℕ → ℕ → List UInt8
  | 0, _ => []
  | width + 1, value =>
      UInt8.ofNat (value / 256 ^ width) :: bigEncode width value

namespace Endian

/-- Unsigned value of a byte string as the host reads it. -/
def value : Endian → List UInt8 → ℕ
  | .little, bytes => bigValue bytes.reverse
  | .big, bytes => bigValue bytes

/-- The bytes of a number as the host stores it. -/
def encode : Endian → ℕ → ℕ → List UInt8
  | .little, width, number => (bigEncode width number).reverse
  | .big, width, number => bigEncode width number

/-- Conversion of a word between host and network order.  The two directions
are the same function. -/
def ntoh (endian : Endian) (width number : ℕ) : ℕ :=
  endian.value (bigEncode width number)

end Endian

private theorem foldl_bigValue (bytes : List UInt8) (start : ℕ) :
    bytes.foldl (fun value byte => value * 256 + byte.toNat) start =
      start * 256 ^ bytes.length + bigValue bytes := by
  induction bytes generalizing start with
  | nil => simp [bigValue]
  | cons byte bytes ih =>
    simp only [bigValue, List.foldl_cons, List.length_cons]
    rw [ih (start * 256 + byte.toNat), ih (0 * 256 + byte.toNat), pow_succ]
    ring

@[simp]
theorem bigValue_nil : bigValue [] = 0 := rfl

theorem bigValue_cons (byte : UInt8) (bytes : List UInt8) :
    bigValue (byte :: bytes) =
      byte.toNat * 256 ^ bytes.length + bigValue bytes := by
  have h := foldl_bigValue bytes (0 * 256 + byte.toNat)
  simpa [bigValue] using h

theorem bigValue_lt (bytes : List UInt8) :
    bigValue bytes < 256 ^ bytes.length := by
  induction bytes with
  | nil => simp
  | cons byte bytes ih =>
    have hbyte : byte.toNat < 256 := byte.toNat_lt
    rw [bigValue_cons, List.length_cons, pow_succ]
    calc
      byte.toNat * 256 ^ bytes.length + bigValue bytes
          < byte.toNat * 256 ^ bytes.length + 256 ^ bytes.length := by omega
      _ = (byte.toNat + 1) * 256 ^ bytes.length := by ring
      _ ≤ 256 * 256 ^ bytes.length := Nat.mul_le_mul_right _ hbyte
      _ = 256 ^ bytes.length * 256 := by ring

@[simp]
theorem length_bigEncode (width number : ℕ) :
    (bigEncode width number).length = width := by
  induction width with
  | zero => rfl
  | succ width ih => simp [bigEncode, ih]

@[simp]
theorem length_encode (endian : Endian) (width number : ℕ) :
    (endian.encode width number).length = width := by
  cases endian <;> simp [Endian.encode]

theorem bigValue_bigEncode (width number : ℕ) :
    bigValue (bigEncode width number) = number % 256 ^ width := by
  induction width with
  | zero => simp [bigEncode, Nat.mod_one]
  | succ width ih =>
    have hdigit : (UInt8.ofNat (number / 256 ^ width)).toNat =
        number / 256 ^ width % 256 := by simp
    rw [bigEncode, bigValue_cons, ih, length_bigEncode, hdigit, pow_succ,
      Nat.mod_mul]
    ring

theorem bigEncode_bigValue (bytes : List UInt8) :
    bigEncode bytes.length (bigValue bytes) = bytes := by
  have hshift : ∀ (width high low : ℕ),
      bigEncode width (high * 256 ^ width + low) = bigEncode width low := by
    intro width
    induction width with
    | zero => intro high low; rfl
    | succ width ih =>
      intro high low
      have hdiv : (high * 256 ^ (width + 1) + low) / 256 ^ width =
          high * 256 + low / 256 ^ width := by
        rw [pow_succ', ← mul_assoc, mul_comm (high * 256),
          Nat.mul_add_div (by positivity)]
      have htail : bigEncode width (high * 256 ^ (width + 1) + low) =
          bigEncode width low := by
        rw [pow_succ', ← mul_assoc]
        exact ih (high * 256) low
      have hhead : UInt8.ofNat (high * 256 + low / 256 ^ width) =
          UInt8.ofNat (low / 256 ^ width) := by
        apply UInt8.toNat.inj
        simp
      rw [bigEncode, bigEncode, hdiv, htail, hhead]
  induction bytes with
  | nil => rfl
  | cons byte bytes ih =>
    have hdigit :
        (byte.toNat * 256 ^ bytes.length + bigValue bytes) /
          256 ^ bytes.length = byte.toNat := by
      rw [mul_comm, Nat.mul_add_div (by positivity),
        Nat.div_eq_of_lt (bigValue_lt bytes), add_zero]
    rw [List.length_cons, bigEncode, bigValue_cons, hdigit, hshift, ih]
    simp

namespace Endian

/-- A number in network order, stored as the host stores it, is big-endian. -/
theorem encode_ntoh (endian : Endian) (width number : ℕ) :
    endian.encode width (endian.ntoh width number) =
      bigEncode width number := by
  cases endian with
  | little =>
    have h := bigEncode_bigValue (bigEncode width number).reverse
    simp only [List.length_reverse, length_bigEncode] at h
    rw [encode, ntoh, value, h, List.reverse_reverse]
  | big =>
    have h := bigEncode_bigValue (bigEncode width number)
    simp only [length_bigEncode] at h
    rw [encode, ntoh, value, h]

/-- Converting the host's reading of a word gives the value it has on the
wire. -/
theorem ntoh_value (endian : Endian) (bytes : List UInt8) :
    endian.ntoh bytes.length (endian.value bytes) = bigValue bytes := by
  cases endian with
  | little =>
    have h := bigEncode_bigValue bytes.reverse
    simp only [List.length_reverse] at h
    rw [ntoh, value, value, h, List.reverse_reverse]
  | big => rw [ntoh, value, value, bigEncode_bigValue]

/-- What is stored can be read again. -/
theorem value_encode (endian : Endian) (width number : ℕ) :
    endian.value (endian.encode width number) = number % 256 ^ width := by
  cases endian <;> simp [value, encode, bigValue_bigEncode]

theorem value_lt (endian : Endian) (bytes : List UInt8) :
    endian.value bytes < 256 ^ bytes.length := by
  cases endian with
  | little => simpa [value] using bigValue_lt bytes.reverse
  | big => exact bigValue_lt bytes

end Endian

/-! ## Words in memory -/

def bytesAt (mem : Memory) (offset width : ℕ) : List UInt8 :=
  (List.range width).map fun i => mem (offset + i)

@[simp]
theorem length_bytesAt (mem : Memory) (offset width : ℕ) :
    (bytesAt mem offset width).length = width := by
  simp [bytesAt]

theorem bytesAt_congr {left right : Memory} {offset width : ℕ}
    (hagree : ∀ i, offset ≤ i → i < offset + width → left i = right i) :
    bytesAt left offset width = bytesAt right offset width := by
  apply List.map_congr_left
  intro i hi
  have hi := List.mem_range.mp hi
  exact hagree _ (by omega) (by omega)

/-- Value of a word as the host reads it from memory. -/
def hostWord (endian : Endian) (mem : Memory) (offset width : ℕ) : ℕ :=
  endian.value (bytesAt mem offset width)

/-- Value of a word that lies in memory in network order. -/
def netWord (mem : Memory) (offset width : ℕ) : ℕ :=
  bigValue (bytesAt mem offset width)

theorem netWord_congr {left right : Memory} {offset width : ℕ}
    (hagree : ∀ i, offset ≤ i → i < offset + width → left i = right i) :
    netWord left offset width = netWord right offset width :=
  congrArg bigValue (bytesAt_congr hagree)

/-- A word depends on its own bytes. -/
theorem hostWord_congr (endian : Endian) {left right : Memory}
    {offset width : ℕ}
    (hagree : ∀ i, offset ≤ i → i < offset + width → left i = right i) :
    hostWord endian left offset width = hostWord endian right offset width :=
  congrArg endian.value (bytesAt_congr hagree)

theorem netWord_lt (mem : Memory) (offset width : ℕ) :
    netWord mem offset width < 256 ^ width := by
  simpa [netWord] using bigValue_lt (bytesAt mem offset width)

/-- A word is bounded by its width. -/
theorem hostWord_lt (endian : Endian) (mem : Memory) (offset width : ℕ) :
    hostWord endian mem offset width < 256 ^ width := by
  simpa [hostWord] using endian.value_lt (bytesAt mem offset width)

/-- The conversion of what the host reads is what the network means. -/
theorem ntoh_hostWord (endian : Endian) (mem : Memory) (offset width : ℕ) :
    endian.ntoh width (hostWord endian mem offset width) =
      netWord mem offset width := by
  simpa [hostWord, netWord] using endian.ntoh_value (bytesAt mem offset width)

def storeBytes (mem : Memory) (offset : ℕ) (bytes : List UInt8) : Memory :=
  fun i =>
    if offset ≤ i ∧ i < offset + bytes.length then bytes.getD (i - offset) 0
    else mem i

/-- Other bytes stay as they are. -/
theorem storeBytes_outside (mem : Memory) {offset i : ℕ} (bytes : List UInt8)
    (houtside : i < offset ∨ offset + bytes.length ≤ i) :
    storeBytes mem offset bytes i = mem i := by
  rw [storeBytes, if_neg (by omega)]

/-- Bytes that are stored are there. -/
theorem bytesAt_storeBytes (mem : Memory) (offset : ℕ) (bytes : List UInt8) :
    bytesAt (storeBytes mem offset bytes) offset bytes.length = bytes := by
  apply List.ext_getElem
  · simp
  · intro i hleft hright
    have hi : i < bytes.length := hright
    simp [bytesAt, storeBytes, hi]

/-- To store what is there changes nothing. -/
theorem storeBytes_bytesAt (mem : Memory) (offset width : ℕ) :
    storeBytes mem offset (bytesAt mem offset width) = mem := by
  funext i
  by_cases hi : offset ≤ i ∧ i < offset + width
  · obtain ⟨hle, hlt⟩ := hi
    have hindex : i - offset < width := by omega
    have hback : offset + (i - offset) = i := by omega
    simp [storeBytes, bytesAt, hle, hlt, hindex, hback]
  · exact storeBytes_outside mem _ (by rw [length_bytesAt]; omega)

/-- A later store of the same width hides an earlier one. -/
theorem storeBytes_storeBytes (mem : Memory) {offset : ℕ}
    {first second : List UInt8} (hlength : first.length = second.length) :
    storeBytes (storeBytes mem offset first) offset second =
      storeBytes mem offset second := by
  funext i
  simp only [storeBytes, hlength]
  split <;> rfl

theorem storeBytes_congr {left right : Memory} {offset i : ℕ}
    (bytes : List UInt8) (hother : left i = right i) :
    storeBytes left offset bytes i = storeBytes right offset bytes i := by
  simp only [storeBytes, hother]

/-- `x = ntohs(x)` and its relatives: the word at `offset` converted in place
between host and network order. -/
def netSwap (endian : Endian) (offset width : ℕ) (mem : Memory) : Memory :=
  match endian with
  | .big => mem
  | .little => fun i =>
      if offset ≤ i ∧ i < offset + width then
        mem (offset + offset + width - 1 - i)
      else mem i

/-- A conversion in place stays in its place. -/
theorem netSwap_outside (endian : Endian) (mem : Memory) {offset width i : ℕ}
    (houtside : i < offset ∨ offset + width ≤ i) :
    netSwap endian offset width mem i = mem i := by
  cases endian with
  | little => simp only [netSwap, if_neg (by omega : ¬(offset ≤ i ∧ i < offset + width))]
  | big => rfl

/-- The conversion only looks at the word itself. -/
theorem netSwap_congr (endian : Endian) {left right : Memory}
    {offset width i : ℕ}
    (hagree : ∀ j, offset ≤ j → j < offset + width → left j = right j)
    (hge : offset ≤ i) (hlt : i < offset + width) :
    netSwap endian offset width left i = netSwap endian offset width right i := by
  cases endian with
  | big => exact hagree i hge hlt
  | little =>
    simp only [netSwap, if_pos (And.intro hge hlt)]
    exact hagree _ (by omega) (by omega)

/-- Conversions of words that do not overlap commute. -/
theorem netSwap_comm (endian : Endian) {offset width offset' width' : ℕ}
    (hdisjoint : offset + width ≤ offset' ∨ offset' + width' ≤ offset)
    (mem : Memory) :
    netSwap endian offset width (netSwap endian offset' width' mem) =
      netSwap endian offset' width' (netSwap endian offset width mem) := by
  funext i
  by_cases hfirst : offset ≤ i ∧ i < offset + width
  · rw [netSwap_outside endian _ (by omega : i < offset' ∨ offset' + width' ≤ i)]
    refine netSwap_congr endian (fun j hge hlt => ?_) hfirst.1 hfirst.2
    exact netSwap_outside endian mem (by omega)
  · rw [netSwap_outside endian _ (by omega : i < offset ∨ offset + width ≤ i)]
    by_cases hsecond : offset' ≤ i ∧ i < offset' + width'
    · refine netSwap_congr endian (fun j hge hlt => ?_) hsecond.1 hsecond.2
      exact (netSwap_outside endian mem (by omega)).symm
    · rw [netSwap_outside endian _ (by omega : i < offset' ∨ offset' + width' ≤ i),
        netSwap_outside endian _ (by omega : i < offset' ∨ offset' + width' ≤ i),
        netSwap_outside endian _ (by omega : i < offset ∨ offset + width ≤ i)]

theorem netSwap_netSwap (endian : Endian) (offset width : ℕ) (mem : Memory) :
    netSwap endian offset width (netSwap endian offset width mem) = mem := by
  cases endian with
  | big => rfl
  | little =>
    funext i
    by_cases hi : offset ≤ i ∧ i < offset + width
    · have hmirror : offset ≤ offset + offset + width - 1 - i ∧
          offset + offset + width - 1 - i < offset + width := by omega
      simp only [netSwap, if_pos hi, if_pos hmirror]
      congr 1
      omega
    · simp only [netSwap, if_neg hi]

private theorem bytesAt_netSwap_little (offset width : ℕ) (mem : Memory) :
    bytesAt (netSwap .little offset width mem) offset width =
      (bytesAt mem offset width).reverse := by
  apply List.ext_getElem
  · simp
  · intro i hleft hright
    have hi : i < width := by simpa using hleft
    simp only [bytesAt, netSwap, List.getElem_map, List.getElem_range,
      List.getElem_reverse, List.length_map, List.length_range]
    rw [if_pos ⟨by omega, by omega⟩]
    congr 1
    omega

/-- After the conversion the host reads the value the word had on the wire. -/
theorem hostWord_netSwap (endian : Endian) (offset width : ℕ)
    (mem : Memory) :
    hostWord endian (netSwap endian offset width mem) offset width =
      netWord mem offset width := by
  cases endian with
  | little =>
    rw [hostWord, bytesAt_netSwap_little, Endian.value, List.reverse_reverse,
      netWord]
  | big => rfl

/-- Converting a word that the host has just stored puts it in network
order. -/
theorem netSwap_storeBytes_encode (endian : Endian) (offset width number : ℕ)
    (mem : Memory) :
    netSwap endian offset width
        (storeBytes mem offset (endian.encode width number)) =
      storeBytes mem offset (bigEncode width number) := by
  cases endian with
  | big => rfl
  | little =>
    let stored := storeBytes mem offset (Endian.little.encode width number)
    have hstored : bytesAt stored offset width =
        Endian.little.encode width number := by
      simpa using bytesAt_storeBytes mem offset
        (Endian.little.encode width number)
    calc
      netSwap .little offset width stored
          = storeBytes (netSwap .little offset width stored) offset
              (bytesAt (netSwap .little offset width stored) offset width) :=
            (storeBytes_bytesAt _ offset width).symm
      _ = storeBytes (netSwap .little offset width stored) offset
            (bigEncode width number) := by
            rw [bytesAt_netSwap_little, hstored, Endian.encode,
              List.reverse_reverse]
      _ = storeBytes mem offset (bigEncode width number) := by
            funext i
            by_cases hi : offset ≤ i ∧ i < offset + width
            · simp only [storeBytes, length_bigEncode, if_pos hi]
            · simp only [storeBytes, length_bigEncode, if_neg hi]
              rw [netSwap_outside .little _ (by omega)]
              exact storeBytes_outside mem _ (by rw [length_encode]; omega)

end ByteOrder
