import LinuxPtp.Lib.ByteOrder

/-!
# Arrays of records in memory

Records of one width lie one behind the other.  Copying the bytes copies the records,
and a record more is stored behind the last one.
-/

namespace ByteOrder

variable {left right : Memory} {offset offset' width count : ℕ}

/-- The records of an array, each as its bytes. -/
def recordsAt (mem : Memory) (offset width count : ℕ) : List (List UInt8) :=
  (List.range count).map fun i => bytesAt mem (offset + width * i) width

theorem bytesAt_add (mem : Memory) (offset first second : ℕ) :
    bytesAt mem offset (first + second) =
      bytesAt mem offset first ++ bytesAt mem (offset + first) second := by
  rw [bytesAt, List.range_add, List.map_append, List.map_map]
  have hback : ∀ i ∈ List.range second,
      mem (offset + (first + i)) = mem (offset + first + i) :=
    fun i _ => congrArg mem (Nat.add_assoc ..).symm
  exact congrArg _ (List.map_congr_left hback)

/-- The bytes of a part of what has been stored. -/
theorem bytesAt_storeBytes_of_le (mem : Memory) (offset : ℕ) {bytes : List UInt8}
    (hle : width ≤ bytes.length) :
    bytesAt (storeBytes mem offset bytes) offset width = bytes.take width := by
  have hall := bytesAt_storeBytes mem offset bytes
  obtain ⟨rest, hrest⟩ := Nat.exists_eq_add_of_le hle
  rw [hrest, bytesAt_add] at hall
  have htake := congrArg (List.take width) hall
  rwa [List.take_left' (length_bytesAt ..)] at htake

/-- Bytes that are stored over the end of others. -/
theorem storeBytes_tail (mem : Memory) (offset : ℕ) {bytes tail : List UInt8}
    (hlength : bytes.length = width + tail.length) :
    storeBytes (storeBytes mem offset bytes) (offset + width) tail =
      storeBytes mem offset (bytes.take width ++ tail) := by
  funext i
  simp only [storeBytes, List.length_append, List.length_take]
  by_cases htail : offset + width ≤ i ∧ i < offset + width + tail.length
  · rw [if_pos htail, if_pos (by omega), List.getD_append_right _ _ _ _ (by
      rw [List.length_take]; omega), List.length_take]
    congr 1
    omega
  · rw [if_neg htail]
    by_cases hhead : offset ≤ i ∧ i < offset + bytes.length
    · rw [if_pos hhead, if_pos (by omega), List.getD_append _ _ _ _ (by
        rw [List.length_take]; omega), List.getD_eq_getElem?_getD,
        List.getD_eq_getElem?_getD, List.getElem?_take_of_lt (by omega)]
    · rw [if_neg hhead, if_neg (by omega)]

@[simp]
theorem length_recordsAt (mem : Memory) (offset width count : ℕ) :
    (recordsAt mem offset width count).length = count := by
  simp [recordsAt]

theorem recordsAt_succ (mem : Memory) (offset width count : ℕ) :
    recordsAt mem offset width (count + 1) =
      recordsAt mem offset width count ++ [bytesAt mem (offset + width * count) width] := by
  simp [recordsAt, List.range_succ]

/-- Equal bytes make equal records. -/
theorem recordsAt_eq_of_bytesAt
    (hbytes : bytesAt left offset (width * count) =
      bytesAt right offset' (width * count)) :
    recordsAt left offset width count = recordsAt right offset' width count := by
  induction count with
  | zero => rfl
  | succ count ih =>
    rw [Nat.mul_succ, bytesAt_add, bytesAt_add] at hbytes
    obtain ⟨hfirst, hlast⟩ := List.append_inj hbytes (by simp)
    rw [recordsAt_succ, recordsAt_succ, ih hfirst, hlast]

/-- The copy of an array is the array. -/
theorem recordsAt_copy {length : ℕ} (hlength : width * count ≤ length) :
    recordsAt (storeBytes left offset (bytesAt right offset' length)) offset width count =
      recordsAt right offset' width count := by
  refine recordsAt_eq_of_bytesAt ?_
  obtain ⟨rest, rfl⟩ := Nat.exists_eq_add_of_le hlength
  rw [bytesAt_storeBytes_of_le _ _ (by simp), bytesAt_add,
    List.take_left' (length_bytesAt ..)]

/-- What lies in an array whose last record has been stored over its end. -/
theorem recordsAt_push {last : List UInt8}
    (hbytes : bytesAt left offset (width * count + width) =
      bytesAt right offset' (width * count) ++ last) :
    recordsAt left offset width (count + 1) =
      recordsAt right offset' width count ++ [last] := by
  rw [bytesAt_add] at hbytes
  obtain ⟨hfirst, hback⟩ := List.append_inj hbytes (by simp)
  rw [recordsAt_succ, recordsAt_eq_of_bytesAt hfirst, hback]

end ByteOrder
