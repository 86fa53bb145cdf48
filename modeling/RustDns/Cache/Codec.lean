import Mathlib.Tactic.Ring
import RustDns.Dns.Message

/-! Keys and rows of the durable store.

    key   = type (2 bytes, big endian) ++ name
    value = expiry (8 bytes) ++ TTL (4 bytes) ++ wire -/
namespace RustDns

structure CacheKey where
  name : Str
  rtype : UInt16
  deriving DecidableEq

/-- A response as the cache keeps it: its wire form, its TTL for expiry in
memory, and its absolute expiry for the store. -/
structure CachedResponse where
  wire : Bytes
  ttlSecs : UInt32
  expiresUnix : UInt64
  deriving DecidableEq

namespace Codec

/-- The `width` low bytes of a number, most significant first. -/
def beBytes : Nat → Nat → Bytes
  | 0, _ => []
  | width + 1, n => UInt8.ofNat (n / 256 ^ width) :: beBytes width n

def ofBeBytes (bytes : Bytes) : Nat := bytes.foldl (fun acc b => acc * 256 + b.toNat) 0

def utf8 (s : Str) : Bytes := s.flatMap String.utf8EncodeChar

def ofUtf8 (bytes : Bytes) : Option Str :=
  (ByteArray.utf8Decode? ⟨bytes.toArray⟩).map Array.toList

def encKey (k : CacheKey) : Bytes := beBytes 2 k.rtype.toNat ++ utf8 k.name

def decKey (b : Bytes) : Option CacheKey :=
  if b.length < 2 then none
  else (ofUtf8 (b.drop 2)).map fun name =>
    { name := name, rtype := UInt16.ofNat (ofBeBytes (b.take 2)) }

def encVal (v : CachedResponse) : Bytes :=
  beBytes 8 v.expiresUnix.toNat ++ beBytes 4 v.ttlSecs.toNat ++ v.wire

def decVal (b : Bytes) : Option CachedResponse :=
  if b.length < 12 then none
  else some
    { wire := b.drop 12
      ttlSecs := UInt32.ofNat (ofBeBytes ((b.drop 8).take 4))
      expiresUnix := UInt64.ofNat (ofBeBytes (b.take 8)) }

@[simp]
theorem length_beBytes (width n : Nat) : (beBytes width n).length = width := by
  induction width with
  | zero => rfl
  | succ width ih => simp [beBytes, ih]

theorem foldl_beBytes (width n acc : Nat) :
    (beBytes width n).foldl (fun acc b => acc * 256 + b.toNat) acc =
      acc * 256 ^ width + n % 256 ^ width := by
  induction width generalizing acc with
  | zero => simp [beBytes, Nat.mod_one]
  | succ width ih =>
      have hSplit : n % 256 ^ (width + 1) =
          256 ^ width * (n / 256 ^ width % 256) + n % 256 ^ width := by
        rw [Nat.pow_succ, Nat.mod_mul, Nat.add_comm]
      have hByte : (UInt8.ofNat (n / 256 ^ width)).toNat = n / 256 ^ width % 256 := rfl
      rw [beBytes, List.foldl_cons, ih, hByte, hSplit, Nat.pow_succ]
      ring

/-- Big-endian bytes are read back when the number fits. -/
theorem ofBeBytes_beBytes {width n : Nat} (hFits : n < 256 ^ width) :
    ofBeBytes (beBytes width n) = n := by
  rw [ofBeBytes, foldl_beBytes, Nat.zero_mul, Nat.zero_add, Nat.mod_eq_of_lt hFits]

theorem ofUtf8_utf8 (s : Str) : ofUtf8 (utf8 s) = some s := by
  have hBytes : (⟨(s.flatMap String.utf8EncodeChar).toArray⟩ : ByteArray) = s.utf8Encode := by
    ext1
    simp [List.utf8Encode]
  rw [ofUtf8, utf8, hBytes, List.utf8Decode?_utf8Encode]
  simp

theorem utf8_ofUtf8 {b : Bytes} {s : Str} (hDec : ofUtf8 b = some s) : utf8 s = b := by
  obtain ⟨chars, hChars, rfl⟩ := Option.map_eq_some_iff.mp hDec
  have hEnc := ByteArray.utf8Encode_get_utf8Decode? (b := ⟨b.toArray⟩)
    (h := Option.isSome_iff_exists.mpr ⟨chars, hChars⟩)
  simp only [hChars, Option.get_some] at hEnc
  have hBytes := congrArg (fun bytes => bytes.data.toList) hEnc
  simpa [List.utf8Encode, utf8] using hBytes

theorem ofBeBytes_lt (b : Bytes) : ofBeBytes b < 256 ^ b.length := by
  induction b using List.reverseRecOn with
  | nil => decide
  | append_singleton front last ih =>
      have hLast := last.toNat_lt
      have hFold : ofBeBytes (front ++ [last]) = ofBeBytes front * 256 + last.toNat := by
        simp [ofBeBytes, List.foldl_append]
      rw [hFold, List.length_append, List.length_singleton, Nat.pow_succ]
      omega

theorem beBytes_append (width n low : Nat) (hLow : low < 256) :
    beBytes (width + 1) (n * 256 + low) = beBytes width n ++ [UInt8.ofNat low] := by
  induction width with
  | zero =>
      have hByte : UInt8.ofNat (n * 256 + low) = UInt8.ofNat low := by
        rw [← UInt8.toNat_inj]
        simp
      simp [beBytes, hByte]
  | succ width ih =>
      have hDiv : (n * 256 + low) / 256 ^ (width + 1) = n / 256 ^ width := by
        rw [Nat.pow_succ', ← Nat.div_div_eq_div_mul]
        congr 1
        omega
      rw [beBytes, hDiv, ih, beBytes, List.cons_append]

/-- The bytes of what big-endian bytes spell are these bytes. -/
theorem beBytes_ofBeBytes (b : Bytes) : beBytes b.length (ofBeBytes b) = b := by
  induction b using List.reverseRecOn with
  | nil => rfl
  | append_singleton front last ih =>
      have hFold : ofBeBytes (front ++ [last]) = ofBeBytes front * 256 + last.toNat := by
        simp [ofBeBytes, List.foldl_append]
      rw [hFold, List.length_append, List.length_singleton,
        beBytes_append _ _ _ last.toNat_lt, ih, UInt8.ofNat_toNat]

/-- The bytes of a field are those it was read from. -/
theorem beBytes_of_length {b : Bytes} {width : Nat} (hLength : b.length = width) :
    ofBeBytes b < 256 ^ width ∧ beBytes width (ofBeBytes b) = b := by
  subst hLength
  exact ⟨ofBeBytes_lt b, beBytes_ofBeBytes b⟩

/-- Every key is read back from its encoding. -/
theorem decKey_encKey (k : CacheKey) : decKey (encKey k) = some k := by
  have hType : UInt16.ofNat (ofBeBytes (beBytes 2 k.rtype.toNat)) = k.rtype := by
    rw [ofBeBytes_beBytes k.rtype.toNat_lt, UInt16.ofNat_toNat]
  have hTake : (encKey k).take 2 = beBytes 2 k.rtype.toNat := List.take_left' (by simp)
  have hDrop : (encKey k).drop 2 = utf8 k.name := List.drop_left' (by simp)
  have hLong : ¬(encKey k).length < 2 := by
    rw [encKey, List.length_append, length_beBytes]
    omega
  rw [decKey, if_neg hLong, hTake, hDrop, ofUtf8_utf8, hType]
  rfl

/-- A row is read under the key that encodes to it only. -/
theorem encKey_of_decKey {b : Bytes} {k : CacheKey} (hDec : decKey b = some k) : encKey k = b := by
  unfold decKey at hDec
  split at hDec
  case isTrue => simp at hDec
  case isFalse hLong =>
    obtain ⟨name, hName, rfl⟩ := Option.map_eq_some_iff.mp hDec
    have hLength : (b.take 2).length = 2 := by
      rw [List.length_take]
      omega
    obtain ⟨hTypeFits, hType⟩ := beBytes_of_length hLength
    rw [encKey, UInt16.toNat_ofNat_of_lt' hTypeFits, hType, utf8_ofUtf8 hName,
      List.take_append_drop]

/-- Different keys never share a row. -/
theorem encKey_injective : Function.Injective encKey := by
  intro k k' hEq
  have hDec := decKey_encKey k
  rw [hEq, decKey_encKey] at hDec
  exact (Option.some.inj hDec).symm

/-- Every response is read back from its row. -/
theorem decVal_encVal (v : CachedResponse) : decVal (encVal v) = some v := by
  have hExpires : UInt64.ofNat (ofBeBytes (beBytes 8 v.expiresUnix.toNat)) = v.expiresUnix := by
    rw [ofBeBytes_beBytes v.expiresUnix.toNat_lt, UInt64.ofNat_toNat]
  have hTtl : UInt32.ofNat (ofBeBytes (beBytes 4 v.ttlSecs.toNat)) = v.ttlSecs := by
    rw [ofBeBytes_beBytes v.ttlSecs.toNat_lt, UInt32.ofNat_toNat]
  have hTake : (encVal v).take 8 = beBytes 8 v.expiresUnix.toNat := by
    rw [encVal, List.append_assoc]
    exact List.take_left' (by simp)
  have hMiddle : (encVal v).drop 8 = beBytes 4 v.ttlSecs.toNat ++ v.wire := by
    rw [encVal, List.append_assoc]
    exact List.drop_left' (by simp)
  have hDrop : (encVal v).drop 12 = v.wire := List.drop_left' (by simp)
  rw [decVal, if_neg (by simp [encVal]; omega), hTake, hMiddle, hDrop, List.take_left' (by simp),
    hExpires, hTtl]

theorem encVal_injective : Function.Injective encVal := by
  intro v v' hEq
  have hDec := decVal_encVal v
  rw [hEq, decVal_encVal] at hDec
  exact (Option.some.inj hDec).symm

/-- Nothing of an accepted row is lost. -/
theorem encVal_of_decVal {b : Bytes} {v : CachedResponse} (hDec : decVal b = some v) :
    encVal v = b := by
  unfold decVal at hDec
  split at hDec
  case isTrue => simp at hDec
  case isFalse hLong =>
    obtain rfl := Option.some.inj hDec
    have hEight : (b.take 8).length = 8 := by
      rw [List.length_take]
      omega
    have hFour : ((b.drop 8).take 4).length = 4 := by
      rw [List.length_take, List.length_drop]
      omega
    obtain ⟨hExpiresFits, hExpires⟩ := beBytes_of_length hEight
    obtain ⟨hTtlFits, hTtl⟩ := beBytes_of_length hFour
    have hTail : (b.drop 8).take 4 ++ b.drop 12 = b.drop 8 := by
      have hRest : (b.drop 8).drop 4 = b.drop 12 := List.drop_drop
      rw [← hRest, List.take_append_drop]
    simp only [encVal]
    rw [UInt64.toNat_ofNat_of_lt' hExpiresFits, UInt32.toNat_ofNat_of_lt' hTtlFits, hExpires, hTtl,
      List.append_assoc, hTail, List.take_append_drop]

/-- Rows and what they stand for determine each other: every key and response
has one row, and an accepted row stands for one key or response. -/
theorem codec_bijective :
    (∀ b k, decKey b = some k ↔ encKey k = b) ∧ (∀ b v, decVal b = some v ↔ encVal v = b) ∧
      Function.Injective encKey ∧ Function.Injective encVal := by
  refine ⟨fun b k => ⟨encKey_of_decKey, ?_⟩, fun b v => ⟨encVal_of_decVal, ?_⟩, encKey_injective,
    encVal_injective⟩
  · rintro rfl
    exact decKey_encKey k
  · rintro rfl
    exact decVal_encVal v

end Codec

end RustDns
