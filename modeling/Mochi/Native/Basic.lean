import Mathlib.Data.Vector.Basic

/-!
# Go values the tracker core reads

The parts of Go's standard library the peer store and the connection-ID generator use, as
the values they compute: `netip.Addr` with `Is6` and `MarshalBinary`, `time.Time` and
`time.Duration` with the comparisons `Validate` makes, the big-endian 32-bit codec of
`encoding/binary`, and the 20-byte `bittorrent.InfoHash`.

A `time.Time` is its Unix time in nanoseconds. Go also stores a monotonic reading, but
`After` between a value that has one and a value that has none (every `time.Unix` result)
compares wall clocks, which is what is modelled. `Time.Add` saturates at the ends of an
`int64` count of seconds, some 292 billion years away; the model does not.
-/

namespace Mochi

/-- `netip.Addr`: the zero address, an IPv4 address, or an IPv6 address with its zone. -/
inductive Addr where
  | zero
  | v4 (bytes : Mathlib.Vector UInt8 4)
  | v6 (bytes : Mathlib.Vector UInt8 16) (zone : String)
  deriving DecidableEq

/-- `Addr.Is6`: true for every IPv6 address, IPv4-mapped ones included. -/
def Addr.is6 : Addr → Bool
  | .v6 .. => true
  | _ => false

/-- `Addr.MarshalBinary`: nothing for the zero address, the 4-byte form of an IPv4
address, the 16-byte form followed by the zone of an IPv6 address. -/
def Addr.marshalBinary : Addr → List UInt8
  | .zero => []
  | .v4 b => b.toList
  | .v6 b zone => b.toList ++ zone.toUTF8.toList

/-- `time.Duration`: a count of nanoseconds. -/
abbrev Duration := Int

/-- `time.Second`. -/
def second : Duration := 1000000000

/-- `time.Minute`. -/
def minute : Duration := 60 * second

/-- `time.Time`, as its Unix time in nanoseconds. -/
structure Time where
  unixNano : Int
  deriving DecidableEq, Repr

/-- `t.Unix()`: the whole seconds since the epoch, rounded down. -/
def Time.unix (t : Time) : Int := t.unixNano / second

/-- `time.Unix(sec, 0)`. -/
def Time.ofUnix (sec : Int) : Time := ⟨sec * second⟩

/-- `t.Add(d)`. -/
def Time.add (t : Time) (d : Duration) : Time := ⟨t.unixNano + d⟩

/-- `t.After(u)`. -/
def Time.after (t u : Time) : Bool := u.unixNano < t.unixNano

/-- The conversion `uint32(x)` of an `int64`: the low 32 bits. -/
def uint32OfInt (x : Int) : UInt32 := UInt32.ofNat (x % 2 ^ 32).toNat

/-- `binary.BigEndian.Uint32(b)`: the big-endian value of `b[0:4]`. The four bytes take
disjoint bits, so the source's `|` of shifted bytes is this sum. -/
def bigEndianUint32 (b : List UInt8) : UInt32 :=
  UInt32.ofNat ((b.getD 0 0).toNat * 2 ^ 24 + (b.getD 1 0).toNat * 2 ^ 16 +
    (b.getD 2 0).toNat * 2 ^ 8 + (b.getD 3 0).toNat)

/-- `binary.BigEndian.PutUint32(b, v)`: the four big-endian bytes of `v` written over
`b[0:4]` (each `byte(v >> k)` keeps the low eight bits). -/
def bigEndianPutUint32 (b : List UInt8) (v : UInt32) : List UInt8 :=
  [UInt8.ofNat (v.toNat / 2 ^ 24), UInt8.ofNat (v.toNat / 2 ^ 16),
    UInt8.ofNat (v.toNat / 2 ^ 8), UInt8.ofNat v.toNat] ++ b.drop 4

/-- Modelled from the spec: `bittorrent.InfoHash`, the "opaque 20-byte identifier for a
torrent", compared bytewise. -/
abbrev InfoHash := Mathlib.Vector UInt8 20

/-! ## Lemmas -/

theorem uint32_toNat_ofNat (n : ℕ) : (UInt32.ofNat n).toNat = n % 2 ^ 32 :=
  BitVec.toNat_ofNat n 32

theorem uint8_toNat_ofNat (n : ℕ) : (UInt8.ofNat n).toNat = n % 2 ^ 8 :=
  BitVec.toNat_ofNat n 8

/-- Reading back the four bytes `PutUint32` wrote gives the value written. -/
theorem bigEndianUint32_putUint32 (b : List UInt8) (v : UInt32) :
    bigEndianUint32 (bigEndianPutUint32 b v) = v := by
  apply UInt32.toNat.inj
  have hv := v.toNat_lt_size
  simp only [bigEndianUint32, bigEndianPutUint32, List.cons_append, List.getD_cons_zero,
    List.getD_cons_succ, uint32_toNat_ofNat, uint8_toNat_ofNat]
  change _ < 2 ^ 32 at hv
  omega

theorem uint32_toNat_add (a b : UInt32) : (a + b).toNat = (a.toNat + b.toNat) % 2 ^ 32 :=
  BitVec.toNat_add _ _

@[simp] theorem uint32_toNat_two : (2 : UInt32).toNat = 2 := rfl

theorem uint64_toNat_ofNat (n : ℕ) : (UInt64.ofNat n).toNat = n % 2 ^ 64 :=
  BitVec.toNat_ofNat n 64

theorem uint64_toNat_sub (a b : UInt64) : (a - b).toNat = (2 ^ 64 - b.toNat + a.toNat) % 2 ^ 64 :=
  BitVec.toNat_sub _ _

theorem uint64_toNat_add (a b : UInt64) : (a + b).toNat = (a.toNat + b.toNat) % 2 ^ 64 :=
  BitVec.toNat_add _ _

@[simp] theorem uint64_toNat_one : (1 : UInt64).toNat = 1 := rfl

@[simp] theorem uint64_ofNat_zero : UInt64.ofNat 0 = 0 := rfl

/-- Two `uint64` decrements by counts are one decrement by their sum. -/
theorem uint64_sub_ofNat_sub_ofNat (n : UInt64) (a b : ℕ) :
    n - UInt64.ofNat a - UInt64.ofNat b = n - UInt64.ofNat (a + b) := by
  apply UInt64.toNat.inj
  simp only [uint64_toNat_sub, uint64_toNat_ofNat]
  omega

theorem uint32OfInt_toNat (x : Int) : (uint32OfInt x).toNat = (x % 2 ^ 32).toNat := by
  rw [uint32OfInt, uint32_toNat_ofNat]
  omega

/-- `int64(uint32(x))`: `x` modulo `2^32`. -/
theorem uint32OfInt_toNat_cast (x : Int) : ((uint32OfInt x).toNat : Int) = x % 2 ^ 32 := by
  rw [uint32OfInt_toNat]
  omega

end Mochi
