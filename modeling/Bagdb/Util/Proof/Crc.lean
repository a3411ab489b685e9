import Bagdb.Util.Hash
import Bagdb.Lib.Crc

/-!
# The CRC of a key

`crc64_tab` is the table of a reflected CRC (`crc64Tab_toList`), so that `_crc64` is that CRC, bit
by bit, and linear (`crc64_spec`). Keys that differ within eight bytes have different CRCs
(`crc64_window`).
-/

namespace Bagdb.Util

open Lib

/-- The polynomial of `_crc64`, its highest coefficient lowest. -/
def crc64Poly : BitVec 64 := 0x95ac9329ac4bc9b5

/-- The CRC of `s` bit by bit: reflected, with initial value 0 and no final xor. -/
def crc64Bitwise (s : List UInt8) : UInt64 :=
  ⟨Crc.crc crc64Poly (s.map (·.toBitVec))⟩

theorem crc64Tab_toList : crc64Tab.toList.map UInt64.toBitVec =
    (List.finRange 256).map fun i => Crc.entry crc64Poly ⟨i⟩ := by
  decide +kernel

theorem get_of_toList {n : Nat} {tab : Vector UInt64 n} {f : Fin n → BitVec 64}
    (h : tab.toList.map UInt64.toBitVec = (List.finRange n).map f) (i : Fin n) :
    (tab.get i).toBitVec = f i := by
  have hlt : i.val < (tab.toList.map UInt64.toBitVec).length := by
    rw [List.length_map, Vector.length_toList]
    exact i.isLt
  have hat := List.getElem_of_eq h hlt
  rw [List.getElem_map, List.getElem_map, List.getElem_finRange] at hat
  exact hat

theorem crc64Tab_eq (byte : UInt8) :
    (crc64Tab.get byte.toFin).toBitVec = Crc.entry crc64Poly byte.toBitVec :=
  get_of_toList crc64Tab_toList byte.toFin

/-- The body of the loop of `_crc64`. -/
def crc64Body (crc : UInt64) (byte : UInt8) : UInt64 :=
  crc64Tab.get (crc.toUInt8 ^^^ byte).toFin ^^^ (crc >>> 8)

/-- The body is the eight bit steps of its byte. -/
theorem crc64Body_eq (crc : UInt64) (byte : UInt8) : (crc64Body crc byte).toBitVec =
    Crc.byteStep crc64Poly crc.toBitVec byte.toBitVec := by
  rw [Crc.byteStep_eq crc64Poly (by decide), crc64Body, UInt64.toBitVec_xor, crc64Tab_eq]
  rfl

theorem foldl_crc64Body (s : List UInt8) (crc : UInt64) : (s.foldl crc64Body crc).toBitVec =
    (s.map (·.toBitVec)).foldl (Crc.byteStep crc64Poly) crc.toBitVec := by
  induction s generalizing crc with
  | nil => rfl
  | cons byte s ih => rw [List.foldl_cons, ih, crc64Body_eq, List.map_cons, List.foldl_cons]

theorem crc64_eq_bitwise (s : List UInt8) : crc64 s s.length = crc64Bitwise s := by
  refine UInt64.toBitVec_inj.1 ?_
  rw [crc64, Int.toNat_natCast, List.take_length]
  exact foldl_crc64Body s 0

theorem crc64Bitwise_xor {s t : List UInt8} (h : t.length = s.length) :
    crc64Bitwise (List.zipWith (· ^^^ ·) s t) = crc64Bitwise s ^^^ crc64Bitwise t := by
  have hmap : (List.zipWith (· ^^^ ·) s t).map (·.toBitVec) =
      List.zipWith (· ^^^ ·) (s.map (·.toBitVec)) (t.map (·.toBitVec)) := by
    rw [List.map_zipWith, List.zipWith_map]
    rfl
  refine UInt64.toBitVec_inj.1 ?_
  rw [UInt64.toBitVec_xor, crc64Bitwise, hmap]
  exact Crc.crc_xor crc64Poly (by simp [h])

/-- **The CRC of a string.** Computed with the table it is that computed bit by bit, with entry 128
of the table as the polynomial, and the CRC of the xor of two strings of one length is the xor of
their CRCs. -/
theorem crc64_spec (s : List UInt8) :
    crc64Poly = (crc64Tab[128]).toBitVec ∧ crc64 s s.length = crc64Bitwise s ∧
      ∀ t : List UInt8, t.length = s.length →
        crc64 (List.zipWith (· ^^^ ·) s t) s.length = crc64 s s.length ^^^ crc64 t s.length := by
  refine ⟨rfl, crc64_eq_bitwise s, fun t ht => ?_⟩
  have hlen : (List.zipWith (· ^^^ ·) s t).length = s.length := by simp [ht]
  have hxor := crc64_eq_bitwise (List.zipWith (· ^^^ ·) s t)
  have ht' := crc64_eq_bitwise t
  rw [hlen] at hxor
  rw [ht] at ht'
  rw [hxor, ht', crc64_eq_bitwise, crc64Bitwise_xor ht]

theorem crc64_spec_one : ([2] : List UInt8).length = ([1] : List UInt8).length ∧
    crc64 (List.zipWith (· ^^^ ·) [1] [2]) 1 = crc64 [1] 1 ^^^ crc64 [2] 1 :=
  ⟨rfl, (crc64_spec [1]).2.2 [2] rfl⟩

/-! ## Keys that differ little -/

theorem crc64Poly_fullDegree : Crc.FullDegree crc64Poly := ⟨by decide, by decide⟩

theorem map_toBitVec_injective {xs ys : List UInt8}
    (h : xs.map (·.toBitVec) = ys.map (·.toBitVec)) : xs = ys :=
  (List.map_inj_right fun _ _ => UInt8.toBitVec_inj.1).1 h

/-- **Keys that differ within eight bytes.** Two keys that are the same before and behind a window
of at most eight bytes have the same CRC only if they are the same in the window too. -/
theorem crc64_window (before behind : List UInt8) {xs ys : List UInt8}
    (hlen : xs.length = ys.length) (hwindow : xs.length ≤ 8) :
    crc64 (before ++ xs ++ behind) (before ++ xs ++ behind).length =
      crc64 (before ++ ys ++ behind) (before ++ ys ++ behind).length ↔ xs = ys := by
  constructor
  · intro h
    rw [crc64_eq_bitwise, crc64_eq_bitwise] at h
    have hcrc := congrArg UInt64.toBitVec h
    simp only [crc64Bitwise, List.map_append] at hcrc
    refine map_toBitVec_injective (Crc.crc_window crc64Poly_fullDegree _ _ ?_ ?_ hcrc)
    · rw [List.length_map, List.length_map, hlen]
    · rw [List.length_map]
      omega
  · rintro rfl
    rfl

theorem crc64_window_two : ([1, 2] : List UInt8).length = ([2, 1] : List UInt8).length ∧
    ([1, 2] : List UInt8).length ≤ 8 ∧
    (crc64 ([7] ++ [1, 2] ++ [9]) ([7] ++ [1, 2] ++ [9] : List UInt8).length =
      crc64 ([7] ++ [2, 1] ++ [9]) ([7] ++ [2, 1] ++ [9] : List UInt8).length ↔
      ([1, 2] : List UInt8) = [2, 1]) :=
  ⟨rfl, by decide, crc64_window [7] [9] rfl (by decide)⟩

end Bagdb.Util
