import Raftel.KVApp

/-!
# The round trip of a request

`encode` fills an array from the left, so that what it has written is a prefix (`Filled`) and the rest
is zero.  `decode` reads the same fields back.

* `codec_round_trip` : a request that fits is decoded as it was, and a payload without anything in the
  reserved byte and after the value is the encoding of its request
-/

namespace Raftel

/-! ### Filling a payload -/

/-- The array holds the bytes, followed by zeros. -/
def Filled (buf : PayloadBuffer) (bytes : Text) : Prop :=
  buf.toList = bytes ++ List.replicate (payloadSize - bytes.length) 0

theorem Filled.nil : Filled (Vector.replicate _ 0) [] := by
  unfold Filled
  rw [Vector.toList_replicate]
  rfl

theorem Filled.unique {buf buf' : PayloadBuffer} {bytes : Text} (h : Filled buf bytes)
    (h' : Filled buf' bytes) : buf = buf' :=
  Vector.toList_inj.mp (h.trans h'.symm)

section Fill

variable {buf : PayloadBuffer} {bytes : Text}

/-- The next byte. -/
theorem Filled.set (h : Filled buf bytes) (off : ℕ) (hoff : off = bytes.length) (b : UInt8)
    (hlt : off < payloadSize) : Filled (buf.setIfInBounds off b) (bytes ++ [b]) := by
  subst hoff
  have hzeros : List.replicate (payloadSize - bytes.length) (0 : UInt8) =
      0 :: List.replicate (payloadSize - (bytes ++ [b]).length) 0 := by
    rw [← List.replicate_succ, List.length_append, List.length_singleton]
    congr 1
    omega
  unfold Filled
  rw [Vector.toList_setIfInBounds, h, hzeros, List.set_append_right _ _ le_rfl, Nat.sub_self,
    List.set_cons_zero, List.append_assoc, List.singleton_append]

theorem Filled.putU16 (h : Filled buf bytes) (off : ℕ) (hoff : off = bytes.length) (v : ℕ)
    (hlt : off + 1 < payloadSize) :
    Filled (putU16 buf off v) (bytes ++ [byteOf v, byteOf (v / 2 ^ 8)]) := by
  have h₁ := h.set off hoff (byteOf v) (by omega)
  have h₂ := h₁.set (off + 1) (by simp [hoff]) (byteOf (v / 2 ^ 8)) hlt
  rw [List.append_assoc] at h₂
  exact h₂

/-- The four bytes of a signed number. -/
def bytesI32 (v : ℤ) : Text :=
  [byteOf v, byteOf (v / 2 ^ 8), byteOf (v / 2 ^ 16), byteOf (v / 2 ^ 24)]

theorem Filled.putI32 (h : Filled buf bytes) (off : ℕ) (hoff : off = bytes.length) (v : ℤ)
    (hlt : off + 3 < payloadSize) : Filled (putI32 buf off v) (bytes ++ bytesI32 v) := by
  have h₁ := h.set off hoff (byteOf v) (by omega)
  have h₂ := h₁.set (off + 1) (by simp [hoff]) (byteOf (v / 2 ^ 8)) (by omega)
  have h₃ := h₂.set (off + 2) (by simp [hoff]) (byteOf (v / 2 ^ 16)) (by omega)
  have h₄ := h₃.set (off + 3) (by simp [hoff]) (byteOf (v / 2 ^ 24)) hlt
  rw [List.append_assoc, List.append_assoc, List.append_assoc] at h₄
  exact h₄

theorem Filled.putString (h : Filled buf bytes) (off : ℕ) (hoff : off = bytes.length) (str : Text)
    (hle : off + str.length ≤ payloadSize) :
    Filled (putString buf off str).1 (bytes ++ str) ∧
      (putString buf off str).2 = (bytes ++ str).length := by
  induction str generalizing buf bytes off with
  | nil =>
    rw [List.append_nil]
    exact ⟨h, hoff⟩
  | cons c str ih =>
    rw [List.length_cons] at hle
    have hset : Filled (buf.setIfInBounds off c) (bytes ++ [c]) := h.set off hoff c (by omega)
    have hrest := ih hset (off + 1) (by simp [hoff]) (by omega)
    rw [List.append_assoc, List.singleton_append] at hrest
    exact hrest

end Fill

/-! ### What is written -/

/-- The fourteen bytes before the key. -/
def headerOf (req : AppRequest) : Text :=
  [req.op, 0] ++ ([byteOf (req.key.length : ℤ), byteOf ((req.key.length : ℤ) / 2 ^ 8)] ++
    ([byteOf (req.value.length : ℤ), byteOf ((req.value.length : ℤ) / 2 ^ 8)] ++
      (bytesI32 req.clientId ++ bytesI32 req.reqId)))

theorem length_headerOf (req : AppRequest) : (headerOf req).length = headerBytes := rfl

/-- The key and the value fit into the payload. -/
def AppRequest.FitsPayload (req : AppRequest) : Prop :=
  req.key.length + req.value.length ≤ payloadSize - headerBytes

instance (req : AppRequest) : Decidable req.FitsPayload := inferInstanceAs (Decidable (_ ≤ _))

/-- The array that `encode` returns. -/
theorem encode_eq_some {req : AppRequest} (hfits : req.FitsPayload) :
    ∃ out, encode req = some out ∧ Filled out (headerOf req ++ req.key ++ req.value) := by
  unfold AppRequest.FitsPayload at hfits
  have hbound : payloadSize - headerBytes = 1086 := rfl
  have hkey : req.key.length % 2 ^ 16 = req.key.length := Nat.mod_eq_of_lt (by omega)
  have hvalue : req.value.length % 2 ^ 16 = req.value.length := Nat.mod_eq_of_lt (by omega)
  have h₀ := (Filled.nil.set 0 rfl req.op (by decide)).set 1 rfl 0 (by decide)
  have h₁ := h₀.putU16 2 rfl req.key.length (by decide)
  have h₂ := h₁.putU16 4 rfl req.value.length (by decide)
  have h₃ := h₂.putI32 6 rfl req.clientId (by decide)
  have h₄ := h₃.putI32 10 rfl req.reqId (by decide)
  obtain ⟨h₅, hoff⟩ := h₄.putString headerBytes rfl req.key (by
    have : headerBytes = 14 := rfl
    have : payloadSize = 1100 := rfl
    omega)
  have h₆ := h₅.putString _ hoff req.value (by
    rw [hoff, List.length_append]
    change 14 + req.key.length + req.value.length ≤ 1100
    omega)
  refine ⟨_, ?_, h₆.1⟩
  unfold encode
  rw [if_neg (not_lt.mpr hfits), hkey, hvalue]

theorem encode_eq_none {req : AppRequest} (hfits : ¬ req.FitsPayload) : encode req = none := by
  unfold encode
  exact if_pos (not_le.mp hfits)

/-! ### What is read -/

theorem toNat_byteOf (v : ℤ) : ((byteOf v).toNat : ℤ) = v % 2 ^ 8 := by
  unfold byteOf
  rw [UInt8.toNat_ofNat']
  omega

theorem byteOf_eq {v : ℤ} {b : UInt8} (h : v % 2 ^ 8 = b.toNat) : byteOf v = b := by
  rw [← UInt8.toNat_inj, ← Nat.cast_inj (R := ℤ), toNat_byteOf, h]

/-- The two bytes of a length. -/
theorem u16_of_bytes {n : ℕ} (hn : n < 2 ^ 16) :
    (byteOf (n : ℤ)).toNat + (byteOf ((n : ℤ) / 2 ^ 8)).toNat * 2 ^ 8 = n := by
  have h₀ := toNat_byteOf n
  have h₁ := toNat_byteOf ((n : ℤ) / 2 ^ 8)
  omega

/-- The four bytes of a signed number. -/
theorem i32_of_bytes {v : ℤ} (hv : FitsInt v) :
    Int.bmod ((byteOf v).toNat + (byteOf (v / 2 ^ 8)).toNat * 2 ^ 8 +
      (byteOf (v / 2 ^ 16)).toNat * 2 ^ 16 + (byteOf (v / 2 ^ 24)).toNat * 2 ^ 24) (2 ^ 32) = v := by
  have h₀ := toNat_byteOf v
  have h₁ := toNat_byteOf (v / 2 ^ 8)
  have h₂ := toNat_byteOf (v / 2 ^ 16)
  have h₃ := toNat_byteOf (v / 2 ^ 24)
  have hsum : ((byteOf v).toNat : ℤ) + (byteOf (v / 2 ^ 8)).toNat * 2 ^ 8 +
      (byteOf (v / 2 ^ 16)).toNat * 2 ^ 16 + (byteOf (v / 2 ^ 24)).toNat * 2 ^ 24 = v % 2 ^ 32 := by
    omega
  rw [hsum]
  exact hv.bmod_emod

/-- **Decoding what was written.** -/
theorem decode_filled {req : AppRequest} (hfits : req.FitsPayload) (hclient : FitsInt req.clientId)
    (hreq : FitsInt req.reqId) {out : PayloadBuffer}
    (hout : Filled out (headerOf req ++ req.key ++ req.value)) (c : CID) (t : TID) :
    decode ⟨c, t, out⟩ = some req := by
  unfold AppRequest.FitsPayload at hfits
  have hbound : payloadSize - headerBytes = 1086 := rfl
  unfold Filled at hout
  rw [List.append_assoc, List.append_assoc] at hout
  generalize List.replicate _ (0 : UInt8) = zeros at hout
  have hklen : getU16 out.toList 2 = req.key.length := by
    rw [hout]
    exact u16_of_bytes (by omega)
  have hvlen : getU16 out.toList 4 = req.value.length := by
    rw [hout]
    exact u16_of_bytes (by omega)
  have hcid : getI32 out.toList 6 = req.clientId := by
    rw [hout]
    exact i32_of_bytes hclient
  have hrid : getI32 out.toList 10 = req.reqId := by
    rw [hout]
    exact i32_of_bytes hreq
  have hop : out.toList.getD 0 0 = req.op := by
    rw [hout]
    rfl
  have hkey : (out.toList.drop headerBytes).take req.key.length = req.key := by
    rw [hout, List.drop_left' (length_headerOf req), List.take_left]
  have hvalue : (out.toList.drop (headerBytes + req.key.length)).take req.value.length =
      req.value := by
    rw [hout, ← List.drop_drop, List.drop_left' (length_headerOf req), List.drop_left,
      List.take_left]
  simp only [decode, hklen, hvlen, if_neg (not_lt.mpr hfits), hkey, hvalue, hcid, hrid, hop]

/-! ### Writing what was read -/

theorem take_eq_map_getD (l : Text) (n : ℕ) (h : n ≤ l.length) :
    l.take n = (List.range n).map fun i => l.getD i 0 := by
  apply List.ext_getElem
  · simp [h]
  · intro i h₁ h₂
    have hi : i < l.length := by
      rw [List.length_take] at h₁
      omega
    simp [hi]

theorem bytes_of_u16 (l : Text) (off : ℕ) :
    byteOf (getU16 l off : ℤ) = l.getD off 0 ∧
      byteOf ((getU16 l off : ℤ) / 2 ^ 8) = l.getD (off + 1) 0 := by
  have h₀ := (l.getD off 0).toNat_lt
  have h₁ := (l.getD (off + 1) 0).toNat_lt
  unfold getU16 byteAt
  constructor
  · apply byteOf_eq
    omega
  · apply byteOf_eq
    omega

theorem bytes_of_i32 (l : Text) (off : ℕ) :
    bytesI32 (getI32 l off) = [l.getD off 0, l.getD (off + 1) 0, l.getD (off + 2) 0,
      l.getD (off + 3) 0] := by
  have h₀ := (l.getD off 0).toNat_lt
  have h₁ := (l.getD (off + 1) 0).toNat_lt
  have h₂ := (l.getD (off + 2) 0).toNat_lt
  have h₃ := (l.getD (off + 3) 0).toNat_lt
  -- the number differs from the sum of the bytes by a multiple of `2 ^ 32`
  have hsum := Int.bmod_add_bdiv ((byteAt l off + byteAt l (off + 1) * 2 ^ 8 +
    byteAt l (off + 2) * 2 ^ 16 + byteAt l (off + 3) * 2 ^ 24 : ℕ) : ℤ) (2 ^ 32)
  have hcast : ((2 ^ 32 : ℕ) : ℤ) = 2 ^ 32 := rfl
  unfold byteAt at hsum
  rw [hcast] at hsum
  generalize hq : Int.bdiv _ (2 ^ 32) = q at hsum
  unfold bytesI32 getI32 byteAt
  push_cast at hsum ⊢
  generalize Int.bmod _ (2 ^ 32) = v at hsum ⊢
  rw [byteOf_eq (b := l.getD off 0) (by omega), byteOf_eq (b := l.getD (off + 1) 0) (by omega),
    byteOf_eq (b := l.getD (off + 2) 0) (by omega), byteOf_eq (b := l.getD (off + 3) 0) (by omega)]

/-- What `decode` says of the request and the payload. -/
theorem decode_eq_some {t : Transaction} {req : AppRequest} (h : decode t = some req) :
    getU16 t.data.toList 2 + getU16 t.data.toList 4 ≤ payloadSize - headerBytes ∧
      req = { op := t.data.toList.getD 0 0
              key := (t.data.toList.drop headerBytes).take (getU16 t.data.toList 2)
              value := (t.data.toList.drop (headerBytes + getU16 t.data.toList 2)).take
                (getU16 t.data.toList 4)
              clientId := getI32 t.data.toList 6
              reqId := getI32 t.data.toList 10 } := by
  unfold decode at h
  by_cases hbound : getU16 t.data.toList 2 + getU16 t.data.toList 4 > payloadSize - headerBytes
  · simp only [if_pos hbound, reduceCtorEq] at h
  · simp only [if_neg hbound, Option.some.injEq] at h
    exact ⟨not_lt.mp hbound, h.symm⟩

/-- **Encoding what was decoded.** -/
theorem encode_of_decode {t : Transaction} {req : AppRequest} (h : decode t = some req)
    (hreserved : t.data.toList.getD 1 0 = 0)
    (hrest : ∀ b ∈ t.data.toList.drop (headerBytes + req.key.length + req.value.length), b = 0) :
    encode req = some t.data := by
  obtain ⟨hbound, hreq⟩ := decode_eq_some h
  have hlength : t.data.toList.length = 1100 := t.data.length_toList
  have hconst : payloadSize - headerBytes = 1086 := rfl
  have hheader : headerBytes = 14 := rfl
  generalize hl : t.data.toList = l at *
  have hkey : req.key.length = getU16 l 2 := by
    rw [hreq, List.length_take, List.length_drop]
    omega
  have hvalue : req.value.length = getU16 l 4 := by
    rw [hreq, List.length_take, List.length_drop]
    omega
  have htake : l.take headerBytes = headerOf req := by
    have hlist : (List.range headerBytes).map (fun i => l.getD i 0) =
        [l.getD 0 0, l.getD 1 0] ++ ([l.getD 2 0, l.getD 3 0] ++ ([l.getD 4 0, l.getD 5 0] ++
          ([l.getD 6 0, l.getD 7 0, l.getD 8 0, l.getD 9 0] ++
            [l.getD 10 0, l.getD 11 0, l.getD 12 0, l.getD 13 0]))) := rfl
    rw [take_eq_map_getD l headerBytes (by omega), hlist, hreserved, headerOf, hkey, hvalue,
      (bytes_of_u16 l 2).1, (bytes_of_u16 l 2).2, (bytes_of_u16 l 4).1, (bytes_of_u16 l 4).2, hreq,
      bytes_of_i32, bytes_of_i32]
  have hzeros : l.drop (headerBytes + req.key.length + req.value.length) =
      List.replicate (payloadSize - (headerOf req ++ req.key ++ req.value).length) 0 := by
    rw [List.eq_replicate_of_mem hrest, List.length_append, List.length_append, length_headerOf,
      List.length_drop, hlength]
    rfl
  have hfilled : Filled t.data (headerOf req ++ req.key ++ req.value) := by
    unfold Filled
    rw [hl, ← hzeros, ← htake]
    calc l = l.take headerBytes ++ (l.drop headerBytes).take (getU16 l 2) ++
          (l.drop (headerBytes + getU16 l 2)).take (getU16 l 4) ++
          l.drop (headerBytes + getU16 l 2 + getU16 l 4) := by
            rw [← List.drop_drop (i := getU16 l 4), List.append_assoc _ (List.take (getU16 l 4) _),
              List.take_append_drop, ← List.drop_drop, List.append_assoc, List.take_append_drop,
              List.take_append_drop]
      _ = _ := by rw [hkey, hvalue, hreq]
  have hfits : req.FitsPayload := by
    unfold AppRequest.FitsPayload
    rw [hkey, hvalue]
    exact hbound
  obtain ⟨out, hencode, hout⟩ := encode_eq_some hfits
  rw [hencode, hout.unique hfilled]

/-- **The round trip.**  A request with 32-bit identifiers is encoded exactly when its key and its value
fit, and is decoded as it was, whatever the header of the transaction is; a payload that is decoded,
with the reserved byte 0 and zeros after the value, is the encoding of its request. -/
theorem codec_round_trip :
    (∀ req : AppRequest, FitsInt req.clientId → FitsInt req.reqId →
        ((encode req).isSome ↔ req.key.length + req.value.length ≤ payloadSize - headerBytes) ∧
          ∀ out, encode req = some out → ∀ c t, decode ⟨c, t, out⟩ = some req) ∧
      ∀ (t : Transaction) (req : AppRequest), decode t = some req →
        t.data.toList.getD 1 0 = 0 →
          (∀ b ∈ t.data.toList.drop (headerBytes + req.key.length + req.value.length), b = 0) →
            encode req = some t.data := by
  refine ⟨fun req hclient hreq => ?_, fun t req => encode_of_decode⟩
  by_cases hfits : req.FitsPayload
  · obtain ⟨out, hencode, hout⟩ := encode_eq_some hfits
    refine ⟨iff_of_true (by rw [hencode]; rfl) hfits, fun out' hout' c t => ?_⟩
    obtain rfl : out = out' := Option.some.inj (hencode.symm.trans hout')
    exact decode_filled hfits hclient hreq hout c t
  · refine ⟨iff_of_false (by rw [encode_eq_none hfits]; exact Bool.false_ne_true) hfits, ?_⟩
    intro out hencode
    rw [encode_eq_none hfits] at hencode
    exact absurd hencode (by simp)

/-- A key and a value that fill the payload, with negative identifiers. -/
theorem codec_round_trip_full :
    ∃ out, encode ⟨opSet, List.replicate 1000 107, List.replicate 86 118, -1, -2 ^ 31⟩ = some out ∧
      decode ⟨1, 1, out⟩ =
        some ⟨opSet, List.replicate 1000 107, List.replicate 86 118, -1, -2 ^ 31⟩ := by
  obtain ⟨hsome, hdecode⟩ := codec_round_trip.1
    ⟨opSet, List.replicate 1000 107, List.replicate 86 118, -1, -2 ^ 31⟩ (by constructor <;> decide)
    (by constructor <;> decide)
  obtain ⟨out, hout⟩ := Option.isSome_iff_exists.mp
    (hsome.mpr (by rw [List.length_replicate, List.length_replicate]; decide))
  exact ⟨out, hout, hdecode out hout 1 1⟩

end Raftel
