/-
Lengths and strings are read back as they were written, and a sealed payload is opened again.
-/

import NoidaDb.Redis.Rdb

namespace NoidaDb.Redis.Rdb

open Lib Reader

theorem unsealPayload_sealPayload (payload : Bytes) :
    unsealPayload (sealPayload payload) = some payload := by
  have isLength : (sealPayload payload).length = payload.length + 10 := by
    unfold sealPayload
    simp
  have afterBody : (sealPayload payload).drop payload.length
      = leBytes 2 version ++ leBytes 8 (crc64 (payload ++ leBytes 2 version)) := by
    unfold sealPayload
    rw [List.append_assoc, List.drop_left]
  have isBody : (sealPayload payload).take payload.length = payload := by
    unfold sealPayload
    rw [List.append_assoc, List.take_left]
  have beforeCrc : (sealPayload payload).take (payload.length + 2)
      = payload ++ leBytes 2 version := by
    unfold sealPayload
    exact List.take_left' (by simp)
  have isCrc : (sealPayload payload).drop (payload.length + 2)
      = leBytes 8 (crc64 (payload ++ leBytes 2 version)) := by
    unfold sealPayload
    exact List.drop_left' (by simp)
  unfold unsealPayload unsealWith
  simp only [isLength, Nat.add_sub_cancel]
  have crcAt : payload.length + 10 - 8 = payload.length + 2 := by omega
  rw [crcAt, isBody, afterBody, beforeCrc, isCrc, ofLe_leBytes (crc64_lt _)]
  rw [if_neg (by omega), if_neg (by rw [List.take_left' (length_leBytes 2 version)]; decide)]
  simp

variable {width : Nat} {v : Int}

theorem reads_fixed {α : Type} {bs : Bytes} (f : Bytes → α) (isLength : bs.length = width) :
    Reads (do let bs ← take width; pure (f bs)) bs (f bs) := by
  rw [← isLength]
  nth_rewrite 2 [← List.append_nil bs]
  apply Reads.bind (Reads.take bs)
  exact Reads.pure (f bs)

theorem reads_lenOrEnc {len : Nat} (fits : len < 2 ^ 64) :
    Reads lenOrEnc (writeLen len) (.ok len) := by
  unfold writeLen lenOrEnc
  split
  next small =>
    have isByte : len.toUInt8.toNat = len := toNat_byte (by omega)
    apply Reads.next_bind
    rw [isByte, Nat.div_eq_of_lt small, Nat.mod_eq_of_lt small]
    exact Reads.pure _
  next notSmall =>
  split
  next middle =>
    have isByte : (0x40 + len / 256).toUInt8.toNat = 0x40 + len / 256 := toNat_byte (by omega)
    have isLow : (len % 256).toUInt8.toNat = len % 256 := toNat_byte (by omega)
    have isKind : (0x40 + len / 256) / 64 = 1 := by omega
    have isHigh : (0x40 + len / 256) % 64 = len / 256 := by omega
    apply Reads.next_bind
    rw [isByte, isKind, isHigh]
    apply Reads.next_bind
    rw [isLow, Nat.div_add_mod']
    exact Reads.pure _
  next notMiddle =>
  split
  next large =>
    apply Reads.next_bind
    have isFixed := reads_fixed (fun bs => (.ok (ofBe bs) : Except Nat Nat)) (length_beBytes 4 len)
    rw [ofBe_beBytes (by omega)] at isFixed
    exact isFixed
  next notLarge =>
    apply Reads.next_bind
    have isFixed := reads_fixed (fun bs => (.ok (ofBe bs) : Except Nat Nat)) (length_beBytes 8 len)
    rw [ofBe_beBytes (by omega)] at isFixed
    exact isFixed

theorem reads_len {n : Nat} (fits : n < 2 ^ 64) : Reads len (writeLen n) n := by
  rw [← List.append_nil (writeLen n)]
  apply Reads.bind (reads_lenOrEnc fits)
  exact Reads.pure n

theorem ofLe_twos (v : Int) : ofLe (leBytes width (twos (8 * width) v)) = twos (8 * width) v := by
  apply ofLe_leBytes
  have below := twos_lt (8 * width) v
  have same : 2 ^ (8 * width) = 256 ^ width := by rw [pow_mul]; norm_num
  rw [← same]
  exact below

theorem reads_special {kind : Nat} {b : UInt8} (isKind : Reads lenOrEnc [b] (.error kind))
    (fits : -2 ^ (8 * width - 1) ≤ v ∧ v < 2 ^ (8 * width - 1)) (wide : 0 < width) :
    Reads (do
      let _ ← lenOrEnc
      let bs ← take width
      pure (showInt (ofTwos (8 * width) (ofLe bs))))
      (b :: leBytes width (twos (8 * width) v)) (showInt v) := by
  have isFixed := reads_fixed (fun bs => showInt (ofTwos (8 * width) (ofLe bs)))
    (length_leBytes width (twos (8 * width) v))
  rw [ofLe_twos, ofTwos_twos (by omega) fits.1 fits.2] at isFixed
  exact Reads.bind isKind isFixed

theorem reads_writeInt {written : Bytes} (isWritten : writeInt v = some written) :
    Reads string written (showInt v) := by
  unfold writeInt at isWritten
  split at isWritten
  next fits =>
    cases isWritten
    have isEncoded : Reads lenOrEnc [0xC0] (.error 0) := fun _ => rfl
    exact reads_special isEncoded fits (by decide)
  next wider =>
  split at isWritten
  next fits =>
    cases isWritten
    have isEncoded : Reads lenOrEnc [0xC1] (.error 1) := fun _ => rfl
    exact reads_special isEncoded fits (by decide)
  next widest =>
  split at isWritten
  next fits =>
    cases isWritten
    have isEncoded : Reads lenOrEnc [0xC2] (.error 2) := fun _ => rfl
    exact reads_special isEncoded fits (by decide)
  next tooWide => cases isWritten

theorem showInt_canonicalInt {s : Bytes} (isNumber : canonicalInt s = some v) : showInt v = s := by
  unfold canonicalInt at isNumber
  split at isNumber
  next short =>
    have printed := (Option.filter_eq_some_iff.mp isNumber).2
    exact beq_iff_eq.mp printed
  next long => cases isNumber

theorem reads_string {s : Bytes} (fits : s.length < 2 ^ 64) : Reads string (writeString s) s := by
  unfold writeString
  cases isInt : (canonicalInt s).bind writeInt with
  | some written =>
    obtain ⟨v, isNumber, isWritten⟩ := Option.bind_eq_some_iff.mp isInt
    rw [← showInt_canonicalInt isNumber]
    exact reads_writeInt isWritten
  | none =>
    apply Reads.bind (reads_lenOrEnc fits)
    exact Reads.take s

theorem reads_counted {α : Type} {element : Reader UInt8 α} {write : α → Bytes} {xs : List α}
    (fits : xs.length < 2 ^ 64) (reads : ∀ x ∈ xs, Reads element (write x) x) :
    Reads (counted element) (writeLen xs.length ++ xs.flatMap write) xs := by
  apply Reads.bind (reads_len fits)
  exact Reads.many xs reads

theorem reads_fieldValue {k v : Bytes} (keyFits : k.length < 2 ^ 64)
    (valueFits : v.length < 2 ^ 64) :
    Reads fieldValue (writeString k ++ writeString v) (k, v) := by
  apply Reads.bind (reads_string keyFits)
  rw [← List.append_nil (writeString v)]
  apply Reads.bind (reads_string valueFits)
  exact Reads.pure (k, v)

theorem ofLeBytes_toLeBytes (x : F64) : F64.ofLeBytes x.toLeBytes = x := by
  unfold F64.ofLeBytes F64.toLeBytes
  rw [ofLe_leBytes x.bits.isLt]
  cases x with
  | mk bits =>
    congr 1
    exact Fin.ext (Nat.mod_eq_of_lt bits.isLt)

theorem reads_scoredMember {m : Bytes} (score : F64) (fits : m.length < 2 ^ 64) :
    Reads scoredMember (writeString m ++ score.toLeBytes) (m, score) := by
  have isTake := Reads.take score.toLeBytes
  have isLength : score.toLeBytes.length = 8 := length_leBytes 8 _
  rw [isLength] at isTake
  apply Reads.bind (reads_string fits)
  rw [← List.append_nil score.toLeBytes]
  apply Reads.bind isTake
  rw [ofLeBytes_toLeBytes]
  exact Reads.pure (m, score)

end NoidaDb.Redis.Rdb
