import Mochi.Native.ConnectionID

/-!
# Connection IDs do not depend on the generator's past

A pooled generator keeps its HMAC key and its 8-byte `connID` buffer across calls
(`ConnectionIDGenerator.KeyedBy`), and every call that reads the HMAC resets it first. So
whatever calls a generator served before, `Generate` returns the timestamp and the truncated
HMAC of the timestamp and the address, and `Validate` decides by the window and the HMAC
alone (`generate_eq`, `validate_eq`).

A connection ID is a Go slice. `Validate` slices it with `connectionID[:4]`, which is bounded
by the slice's capacity, and `connectionID[4:]`, bounded by its length. On a slice of at least
four bytes it reads nothing past the length, and it accepts only IDs of eight bytes
(`validate_accepts_only_eight_bytes`); a shorter slice with spare capacity has its timestamp
read from the backing array.

`Generate` keeps only the low 32 bits of `now.Unix()`, which `Validate` reads back as a time
since the epoch. An ID generated from 2^32 seconds on (the year 2106) names a time 136 years
in the past and never validates; before then, an ID validates for two minutes after it was
made (`validate_generate`).
-/

namespace Mochi.UDP

variable (H : HmacSha256)

/-- A call on a pooled generator. -/
inductive GenCall where
  | generate (ip : Addr) (now : Time)
  | validate (connectionID : ByteSlice) (ip : Addr) (now : Time) (maxClockSkew : Duration)

/-- Calls in turn on one generator, stopping at the first panic. -/
def ConnectionIDGenerator.runCalls (g : ConnectionIDGenerator) :
    List GenCall → Except String ConnectionIDGenerator
  | [] => .ok g
  | .generate ip now :: cs => (g.generate H ip now).2.runCalls cs
  | .validate c ip now maxClockSkew :: cs =>
    match g.validate H c ip now maxClockSkew with
    | .error e => .error e
    | .ok (_, g') => g'.runCalls cs

/-- The generator's HMAC is keyed by `key` and its `connID` buffer has eight bytes. -/
structure ConnectionIDGenerator.KeyedBy (key : List UInt8) (g : ConnectionIDGenerator) :
    Prop where
  mac_key : g.mac.key = key
  length_connID : g.connID.length = 8

namespace ByteSlice

variable (s : ByteSlice)

@[simp] theorem length_toList : s.toList.length = s.len := by
  simp [toList, s.len_le]

@[simp] theorem toList_ofList (l : List UInt8) : (ofList l).toList = l := List.take_length l

@[simp] theorem len_ofList (l : List UInt8) : (ofList l).len = l.length := rfl

theorem sliceTo_of_le {hi : ℕ} (h : hi ≤ s.len) : s.sliceTo hi = .ok (s.toList.take hi) := by
  rw [sliceTo, if_pos (h.trans s.len_le), toList, List.take_take, min_eq_left h]

theorem sliceFrom_of_le {lo : ℕ} (h : lo ≤ s.len) : s.sliceFrom lo = .ok (s.toList.drop lo) := by
  rw [sliceFrom, if_pos h]

theorem sliceFrom_eq_ok {lo : ℕ} {t : List UInt8} (h : s.sliceFrom lo = .ok t) :
    lo ≤ s.len ∧ t = s.toList.drop lo := by
  unfold sliceFrom at h
  split_ifs at h with hlo
  exact ⟨hlo, (Except.ok.inj h).symm⟩

end ByteSlice

/-- On a slice of at least four bytes, `Validate` reads nothing past its length: it answers
as on a copy of the bytes in view. -/
theorem ConnectionIDGenerator.validate_of_four_le (g : ConnectionIDGenerator) {c : ByteSlice}
    (h : 4 ≤ c.len) (ip : Addr) (now : Time) (maxClockSkew : Duration) :
    g.validate H c ip now maxClockSkew = g.validate H (.ofList c.toList) ip now maxClockSkew := by
  have h' : 4 ≤ (ByteSlice.ofList c.toList).len := by simpa using h
  simp only [validate, c.sliceTo_of_le h, c.sliceFrom_of_le h, ByteSlice.sliceTo_of_le _ h',
    ByteSlice.sliceFrom_of_le _ h', ByteSlice.toList_ofList]

section KeyedBy

variable {H} {key : List UInt8} {g : ConnectionIDGenerator}

theorem newConnectionIDGenerator_keyedBy (key : String) :
    (newConnectionIDGenerator key).KeyedBy key.toUTF8.toList :=
  ⟨rfl, rfl⟩

theorem length_bigEndianPutUint32 (b : List UInt8) (v : UInt32) :
    (bigEndianPutUint32 b v).length = 4 + (b.length - 4) := by
  simp [bigEndianPutUint32]
  omega

theorem take_bigEndianPutUint32 (b : List UInt8) (v : UInt32) :
    (bigEndianPutUint32 b v).take 4 = bigEndianPutUint32 [] v := rfl

/-- `Generate` returns the four timestamp bytes and the first four bytes of the HMAC of the
timestamp bytes and the address, whatever the generator did before. -/
theorem ConnectionIDGenerator.KeyedBy.generate_eq (hg : g.KeyedBy key) (ip : Addr) (now : Time) :
    (g.generate H ip now).1 = bigEndianPutUint32 [] (uint32OfInt now.unix) ++
      (H.digest key (bigEndianPutUint32 [] (uint32OfInt now.unix) ++ ip.marshalBinary)).take 4 ∧
    (g.generate H ip now).2.KeyedBy key := by
  have hlen : (bigEndianPutUint32 (g.connID.take 8) (uint32OfInt now.unix)).length = 8 := by
    simp [length_bigEndianPutUint32, hg.length_connID]
  have hd := H.length_digest key (bigEndianPutUint32 [] (uint32OfInt now.unix) ++ ip.marshalBinary)
  simp only [generate, reset, Mac.reset, Mac.write, Mac.sum, copySlice, hg.mac_key,
    take_bigEndianPutUint32, List.nil_append]
  refine ⟨?_, rfl, ?_⟩
  · rw [List.drop_eq_nil_of_le (by simp [List.length_take, hd]; omega)]
    simp [hd, length_bigEndianPutUint32]
  · simp [List.length_take, hd, hlen, length_bigEndianPutUint32]

/-- `Validate` of eight bytes: true exactly when the timestamp is in the window and the last
four bytes are the truncated HMAC, whatever the generator did before. -/
theorem ConnectionIDGenerator.KeyedBy.validate_eq (hg : g.KeyedBy key) {c : ByteSlice}
    (hc : c.len = 8) (ip : Addr) (now : Time) (maxClockSkew : Duration) :
    ∃ g', g.validate H c ip now maxClockSkew = .ok
      (!now.after ((Time.ofUnix (bigEndianUint32 (c.toList.take 4)).toNat).add ttl) &&
        !(Time.ofUnix (bigEndianUint32 (c.toList.take 4)).toNat).after (now.add maxClockSkew) &&
        c.toList.drop 4 == (H.digest key (c.toList.take 4 ++ ip.marshalBinary)).take 4, g') ∧
      g'.KeyedBy key := by
  have h4 : 4 ≤ c.len := by omega
  simp only [validate, c.sliceTo_of_le h4, c.sliceFrom_of_le h4]
  split_ifs with hwin
  · refine ⟨g, ?_, hg⟩
    rcases Bool.or_eq_true _ _ ▸ hwin with h | h <;> simp [h]
  · simp only [Bool.or_eq_true, not_or, Bool.not_eq_true] at hwin
    simp only [reset, Mac.reset, Mac.write, Mac.sum, hg.mac_key, List.nil_append, hwin.1, hwin.2,
      Bool.not_false, Bool.true_and, Except.map]
    rw [Bool.beq_comm]
    exact ⟨_, rfl, rfl, by simp [hg.length_connID]⟩

/-- `Validate` keeps the key and the `connID` buffer, whatever it returns. -/
theorem ConnectionIDGenerator.KeyedBy.validate (hg : g.KeyedBy key) {c : ByteSlice} {ip : Addr}
    {now : Time} {maxClockSkew : Duration} {b : Bool} {g' : ConnectionIDGenerator}
    (h : g.validate H c ip now maxClockSkew = .ok (b, g')) : g'.KeyedBy key := by
  simp only [ConnectionIDGenerator.validate] at h
  split at h
  · cases h
  · split_ifs at h
    · obtain ⟨-, rfl⟩ := Prod.mk.inj (Except.ok.inj h)
      exact hg
    · cases hs : c.sliceFrom 4 with
      | error e => simp [hs, Except.map] at h
      | ok tail =>
        simp only [hs, Except.map, Except.ok.injEq, Prod.mk.injEq] at h
        obtain ⟨-, rfl⟩ := h
        exact ⟨hg.mac_key, by simp [ConnectionIDGenerator.reset, hg.length_connID]⟩

theorem ConnectionIDGenerator.KeyedBy.runCalls (hg : g.KeyedBy key) {cs : List GenCall}
    {g' : ConnectionIDGenerator} (h : g.runCalls H cs = .ok g') : g'.KeyedBy key := by
  induction cs generalizing g with
  | nil => cases h; exact hg
  | cons c cs ih =>
    cases c with
    | generate ip now => exact ih (hg.generate_eq ip now).2 h
    | validate c ip now maxClockSkew =>
      simp only [ConnectionIDGenerator.runCalls] at h
      split at h
      · cases h
      · exact ih (hg.validate ‹_›) h

/-- A generated ID, validated by any generator of the same key: the HMAC half always
matches, so the answer is the window check on the timestamp `now.Unix() mod 2^32`. -/
theorem ConnectionIDGenerator.KeyedBy.validate_generate_eq {g₁ g₂ : ConnectionIDGenerator}
    (hg₁ : g₁.KeyedBy key) (hg₂ : g₂.KeyedBy key) (ip : Addr) (now now' : Time)
    (maxClockSkew : Duration) :
    ∃ g', g₂.validate H (.ofList (g₁.generate H ip now).1) ip now' maxClockSkew = .ok
      (!now'.after ((Time.ofUnix (now.unix % 2 ^ 32)).add ttl) &&
        !(Time.ofUnix (now.unix % 2 ^ 32)).after (now'.add maxClockSkew), g') := by
  have hc := (hg₁.generate_eq (H := H) ip now).1
  have hB : (bigEndianPutUint32 [] (uint32OfInt now.unix)).length = 4 := rfl
  have hlen : (ByteSlice.ofList (g₁.generate H ip now).1).len = 8 := by
    rw [ByteSlice.len_ofList, hc, List.length_append, hB, List.length_take, H.length_digest]
    rfl
  obtain ⟨g', hv, -⟩ := hg₂.validate_eq hlen ip now' maxClockSkew
  refine ⟨g', hv.trans ?_⟩
  rw [ByteSlice.toList_ofList, hc, List.take_left' hB, List.drop_left' hB,
    bigEndianUint32_putUint32, uint32OfInt_toNat_cast, beq_self_eq_true, Bool.and_true]

end KeyedBy

/-- A keyed digest for worked examples: byte `i` is a polynomial hash, seeded with `i`, of
the key and the message. -/
def sampleHmac : HmacSha256 :=
  ⟨fun key msg => (List.range 32).map fun i =>
    UInt8.ofNat ((key ++ msg).foldl (fun acc b => acc * 31 + b.toNat) i), fun _ _ => by simp⟩

/-- A client at `192.0.2.1`. -/
def clientAddr : Addr := .v4 ⟨[192, 0, 2, 1], rfl⟩

/-- An instant in 2023, `1700000000` seconds after the epoch. -/
def sampleNow : Time := ⟨1700000000 * second⟩

/-- Whatever the generator, its past and the slice's capacity, `Validate` returns true only
for a connection ID of eight bytes, since it compares the bytes after the fourth with four
bytes of the digest; and on a slice of at least four bytes it reads nothing past the slice's
length, answering as on a copy of the bytes in view. -/
theorem validate_accepts_only_eight_bytes (g : ConnectionIDGenerator) (c : ByteSlice)
    (ip : Addr) (now : Time) (maxClockSkew : Duration) :
    (∀ g', g.validate H c ip now maxClockSkew = .ok (true, g') → c.len = 8) ∧
      (4 ≤ c.len →
        g.validate H c ip now maxClockSkew = g.validate H (.ofList c.toList) ip now maxClockSkew) := by
  refine ⟨fun g' h => ?_, fun h4 => g.validate_of_four_le H h4 ip now maxClockSkew⟩
  simp only [ConnectionIDGenerator.validate] at h
  split at h
  · cases h
  · split_ifs at h
    · cases h
    · cases hs : c.sliceFrom 4 with
      | error e => simp [hs, Except.map] at h
      | ok tail =>
        simp only [hs, Except.map, Except.ok.injEq, Prod.mk.injEq] at h
        obtain ⟨h4, rfl⟩ := c.sliceFrom_eq_ok hs
        have hlen := congrArg List.length (beq_iff_eq.mp h.1)
        simp only [ConnectionIDGenerator.reset, Mac.reset, Mac.write, Mac.sum, List.nil_append,
          List.length_take, List.length_drop, H.length_digest, ByteSlice.length_toList] at hlen
        omega

/-- A three-byte slice over a backing array of eight: `Validate` reads the timestamp from the
bytes past its length, finds it out of the window, and returns false instead of panicking. -/
example : ((newConnectionIDGenerator "mochi").validate sampleHmac
    ⟨[0, 0, 0, 0, 1, 2, 3, 4], 3, by decide⟩ clientAddr sampleNow 0).map Prod.fst = .ok false := by
  rfl

/-- Whatever calls a generator served before, `Generate(ip, now)` returns the big-endian
bytes of `uint32(now.Unix())` followed by the first four bytes of the HMAC of those bytes
and `ip.MarshalBinary()`, and `Validate` of eight bytes `c` returns true exactly when `now`
is not after `ts + ttl`, `ts` is not after `now + maxClockSkew`, and `c[4:8]` is the first
four bytes of the HMAC of `c[0:4]` and the address (`ts` the time `c[0:4]` names). -/
theorem connectionID_generator_stateless (key : String) (hist : List GenCall)
    {g : ConnectionIDGenerator} (h : (newConnectionIDGenerator key).runCalls H hist = .ok g)
    (ip : Addr) (now : Time) :
    (g.generate H ip now).1 = bigEndianPutUint32 [] (uint32OfInt now.unix) ++
        (H.digest key.toUTF8.toList
          (bigEndianPutUint32 [] (uint32OfInt now.unix) ++ ip.marshalBinary)).take 4 ∧
      ∀ (c : ByteSlice) (maxClockSkew : Duration), c.len = 8 →
        ∃ g', g.validate H c ip now maxClockSkew = .ok
          (!now.after ((Time.ofUnix (bigEndianUint32 (c.toList.take 4)).toNat).add ttl) &&
            !(Time.ofUnix (bigEndianUint32 (c.toList.take 4)).toNat).after (now.add maxClockSkew) &&
            c.toList.drop 4 ==
              (H.digest key.toUTF8.toList (c.toList.take 4 ++ ip.marshalBinary)).take 4, g') := by
  have hg := (newConnectionIDGenerator_keyedBy key).runCalls h
  refine ⟨(hg.generate_eq ip now).1, fun c maxClockSkew hc => ?_⟩
  obtain ⟨g', hv, -⟩ := hg.validate_eq hc ip now maxClockSkew
  exact ⟨g', hv⟩

/-- A `Generate`, then a `Validate` of an ID stamped at the epoch that returns false before it
resets the generator, leaving the HMAC with the bytes `Generate` wrote. -/
def sampleHistory : List GenCall :=
  [.generate clientAddr sampleNow, .validate (.ofList [0, 0, 0, 0, 1, 2, 3, 4]) clientAddr sampleNow 0]

/-- The generator keyed by `"mochi"` after `sampleHistory`. -/
def historyGenerator : ConnectionIDGenerator :=
  match (newConnectionIDGenerator "mochi").runCalls sampleHmac sampleHistory with
  | .ok g => g
  | .error _ => newConnectionIDGenerator "mochi"

theorem runCalls_sampleHistory :
    (newConnectionIDGenerator "mochi").runCalls sampleHmac sampleHistory = .ok historyGenerator := by
  rfl

theorem connectionID_generator_stateless_history :
    historyGenerator.mac.written ≠ [] ∧
      (historyGenerator.generate sampleHmac clientAddr sampleNow).1 =
          bigEndianPutUint32 [] (uint32OfInt sampleNow.unix) ++
        (sampleHmac.digest "mochi".toUTF8.toList
          (bigEndianPutUint32 [] (uint32OfInt sampleNow.unix) ++ clientAddr.marshalBinary)).take 4 ∧
      ∀ (c : ByteSlice) (maxClockSkew : Duration), c.len = 8 →
        ∃ g', historyGenerator.validate sampleHmac c clientAddr sampleNow maxClockSkew = .ok
          (!sampleNow.after ((Time.ofUnix (bigEndianUint32 (c.toList.take 4)).toNat).add ttl) &&
            !(Time.ofUnix (bigEndianUint32 (c.toList.take 4)).toNat).after
              (sampleNow.add maxClockSkew) &&
            c.toList.drop 4 == (sampleHmac.digest "mochi".toUTF8.toList
              (c.toList.take 4 ++ clientAddr.marshalBinary)).take 4, g') :=
  ⟨by decide, connectionID_generator_stateless sampleHmac "mochi" sampleHistory runCalls_sampleHistory
    clientAddr sampleNow⟩

/-- At `now = now' = 2^32` seconds, in the window and with no skew, a fresh generator's ID
is rejected whatever the HMAC: `Generate` writes the timestamp `0`, which `Validate` finds past
its two-minute lifetime. -/
theorem validate_generate_two_pow_32 :
    Time.unix ⟨2 ^ 32 * second⟩ - Time.unix ⟨2 ^ 32 * second⟩ < 120 ∧
      ∀ H : HmacSha256, ∃ g', ((newConnectionIDGenerator "").generate H .zero ⟨2 ^ 32 * second⟩).2.validate H
        (.ofList ((newConnectionIDGenerator "").generate H .zero ⟨2 ^ 32 * second⟩).1) .zero
        ⟨2 ^ 32 * second⟩ 0 = .ok (false, g') := by
  refine ⟨by decide, fun H => ?_⟩
  have hg := newConnectionIDGenerator_keyedBy ""
  obtain ⟨g', hv⟩ := hg.validate_generate_eq (hg.generate_eq (H := H) .zero ⟨2 ^ 32 * second⟩).2
    .zero ⟨2 ^ 32 * second⟩ ⟨2 ^ 32 * second⟩ 0
  exact ⟨g', hv.trans rfl⟩

/-- A connection ID generated at `now` with `now.Unix()` in `[0, 2^32)` validates, on any
generator of the same key, at every `now'` from `now` to under two minutes later; one
generated from `2^32` seconds on never validates at or after `now`. -/
theorem validate_generate (key : String) (hist₁ hist₂ : List GenCall)
    {g₁ g₂ : ConnectionIDGenerator}
    (h₁ : (newConnectionIDGenerator key).runCalls H hist₁ = .ok g₁)
    (h₂ : (newConnectionIDGenerator key).runCalls H hist₂ = .ok g₂)
    (ip : Addr) (now now' : Time) (maxClockSkew : Duration) (hskew : 0 ≤ maxClockSkew)
    (hle : now.unixNano ≤ now'.unixNano) (hwin : now'.unix - now.unix < 120) :
    (0 ≤ now.unix → now.unix < 2 ^ 32 →
        ∃ g', g₂.validate H (.ofList (g₁.generate H ip now).1) ip now' maxClockSkew =
          .ok (true, g')) ∧
      (2 ^ 32 ≤ now.unix →
        ∃ g', g₂.validate H (.ofList (g₁.generate H ip now).1) ip now' maxClockSkew =
          .ok (false, g')) := by
  obtain ⟨g', hv⟩ := ((newConnectionIDGenerator_keyedBy key).runCalls h₁).validate_generate_eq
    ((newConnectionIDGenerator_keyedBy key).runCalls h₂) ip now now' maxClockSkew
  refine ⟨fun h0 h32 => ⟨g', hv.trans ?_⟩, fun h32 => ⟨g', hv.trans ?_⟩⟩
  · have hskew : (0 : Int) ≤ maxClockSkew := hskew
    rw [Int.emod_eq_of_lt h0 h32]
    simp only [Except.ok.injEq, Prod.mk.injEq, and_true, Bool.and_eq_true, Bool.not_eq_true',
      decide_eq_false_iff_not, not_lt, Time.after, Time.add, Time.ofUnix, ttl, minute, second,
      Time.unix] at hwin ⊢
    omega
  · simp only [Except.ok.injEq, Prod.mk.injEq, and_true, Bool.and_eq_false_iff,
      Bool.not_eq_false', decide_eq_true_eq, Time.after, Time.add, Time.ofUnix, ttl, minute,
      second, Time.unix] at h32 ⊢
    omega

/-- An ID that the generator of `sampleHistory` makes for `192.0.2.1`, validated 30 seconds
later with a skew of five seconds by a generator that has served the same history. -/
theorem validate_generate_history :
    (0 : Duration) ≤ 5 * second ∧ sampleNow.unixNano ≤ (sampleNow.add (30 * second)).unixNano ∧
      (sampleNow.add (30 * second)).unix - sampleNow.unix < 120 ∧
      0 ≤ sampleNow.unix ∧ sampleNow.unix < 2 ^ 32 ∧
      ∃ g', historyGenerator.validate sampleHmac
          (.ofList (historyGenerator.generate sampleHmac clientAddr sampleNow).1) clientAddr
          (sampleNow.add (30 * second)) (5 * second) = .ok (true, g') := by
  have hskew : (0 : Duration) ≤ 5 * second := by decide
  have hle : sampleNow.unixNano ≤ (sampleNow.add (30 * second)).unixNano := by decide
  have hwin : (sampleNow.add (30 * second)).unix - sampleNow.unix < 120 := by decide
  have h0 : 0 ≤ sampleNow.unix := by decide
  have h32 : sampleNow.unix < 2 ^ 32 := by decide
  exact ⟨hskew, hle, hwin, h0, h32, (validate_generate sampleHmac "mochi" sampleHistory sampleHistory
    runCalls_sampleHistory runCalls_sampleHistory clientAddr sampleNow (sampleNow.add (30 * second))
    (5 * second) hskew hle hwin).1 h0 h32⟩

end Mochi.UDP
