import Mochi.Native.Basic

/-!
# The UDP connection-ID generator

`ConnectionIDGenerator` makes and checks the 8-byte connection IDs of BEP 15: four bytes of
Unix time, then the first four bytes of an HMAC-SHA256 of those four bytes and the client's
address. A generator is reused from a pool: it holds a keyed HMAC, the 8-byte `connID`
buffer `Generate` returns, and a scratch buffer for digests, and `reset` clears what a call
leaves behind.

The HMAC is a parameter (`HmacSha256`): the model needs only that `Sum` appends a 32-byte
digest of the key and of everything written since the last `Reset`. Logging is left out.
-/

namespace Mochi.UDP

/-- Modelled from the spec: HMAC-SHA256, a 32-byte digest of a key and a message. -/
structure HmacSha256 where
  digest : List UInt8 → List UInt8 → List UInt8
  length_digest : ∀ key msg, (digest key msg).length = 32

/-- The `hash.Hash` that `hmac.New(sha256.New, key)` returns: its key, and the bytes written
since the last `Reset`. -/
structure Mac where
  key : List UInt8
  written : List UInt8

/-- `Reset`. -/
def Mac.reset (m : Mac) : Mac := { m with written := [] }

/-- `Write(b)`. -/
def Mac.write (m : Mac) (b : List UInt8) : Mac := { m with written := m.written ++ b }

/-- `Sum(b)`: `b` followed by the MAC of what was written; the state is unchanged. -/
def Mac.sum (H : HmacSha256) (m : Mac) (b : List UInt8) : List UInt8 :=
  b ++ H.digest m.key m.written

/-- `ttl`, the lifetime of a connection ID under BEP 15. -/
def ttl : Duration := 2 * minute

/-- `ConnectionIDGenerator`. -/
structure ConnectionIDGenerator where
  mac : Mac
  connID : List UInt8
  scratch : List UInt8

/-- `NewConnectionIDGenerator(key)`: the HMAC keyed by the bytes of `key`, an 8-byte and a
32-byte zeroed buffer. -/
def newConnectionIDGenerator (key : String) : ConnectionIDGenerator where
  mac := ⟨key.toUTF8.toList, []⟩
  connID := List.replicate 8 0
  scratch := List.replicate 32 0

/-- `reset`: `g.mac.Reset()`, `g.connID = g.connID[:8]`, `g.scratch = g.scratch[:0]`. -/
def ConnectionIDGenerator.reset (g : ConnectionIDGenerator) : ConnectionIDGenerator where
  mac := g.mac.reset
  connID := g.connID.take 8
  scratch := []

/-- `copy(b[lo:hi], src)`: the first `min(hi - lo, len(src))` bytes of `src` written over
`b` from `lo`. -/
def copySlice (b : List UInt8) (lo hi : ℕ) (src : List UInt8) : List UInt8 :=
  let n := min (hi - lo) src.length
  b.take lo ++ src.take n ++ b.drop (lo + n)

/-- The runtime panic of slicing a slice out of its bounds. -/
def sliceBoundsMsg : String := "runtime error: slice bounds out of range"

/-- A Go `[]byte`: the bytes of its backing array from the slice's start up to its capacity,
and its length. Slicing with `s[:hi]` may reach past the length, up to the capacity; the
field `len_le` keeps the length within the capacity. -/
structure ByteSlice where
  backing : List UInt8
  len : ℕ
  len_le : len ≤ backing.length

/-- The bytes in view, `s[0:len(s)]`. -/
def ByteSlice.toList (s : ByteSlice) : List UInt8 := s.backing.take s.len

/-- A slice of exactly these bytes, its capacity its length, as `make` and a copy give. -/
def ByteSlice.ofList (l : List UInt8) : ByteSlice := ⟨l, l.length, le_rfl⟩

/-- `s[:hi]`: the first `hi` bytes of the backing array; it panics past the capacity. -/
def ByteSlice.sliceTo (s : ByteSlice) (hi : ℕ) : Except String (List UInt8) :=
  if hi ≤ s.backing.length then .ok (s.backing.take hi) else .error sliceBoundsMsg

/-- `s[lo:]`: the bytes from `lo` to the length; it panics when `lo` is past the length. -/
def ByteSlice.sliceFrom (s : ByteSlice) (lo : ℕ) : Except String (List UInt8) :=
  if lo ≤ s.len then .ok (s.toList.drop lo) else .error sliceBoundsMsg

variable (H : HmacSha256)

/-- `Generate(ip, now)`: the returned bytes (the generator's own `connID` buffer) and the
generator after the call. -/
def ConnectionIDGenerator.generate (g : ConnectionIDGenerator) (ip : Addr) (now : Time) :
    List UInt8 × ConnectionIDGenerator :=
  let g := g.reset
  let connID := bigEndianPutUint32 g.connID (uint32OfInt now.unix)
  let mac := (g.mac.write (connID.take 4)).write ip.marshalBinary
  let scratch := mac.sum H g.scratch
  let connID := copySlice connID 4 8 (scratch.take 4)
  (connID, { mac, connID, scratch })

/-- `Validate(connectionID, ip, now, maxClockSkew)`: false without touching the generator
when the timestamp is out of the window, otherwise whether the bytes after the fourth are the
truncated HMAC (`hmac.Equal` is false on slices of different lengths). `connectionID[:4]`
panics only on a slice of capacity under four, and reads the backing array past a shorter
length; `connectionID[4:]` panics on a slice shorter than four bytes. -/
def ConnectionIDGenerator.validate (g : ConnectionIDGenerator) (connectionID : ByteSlice)
    (ip : Addr) (now : Time) (maxClockSkew : Duration) :
    Except String (Bool × ConnectionIDGenerator) :=
  match connectionID.sliceTo 4 with
  | .error e => .error e
  | .ok head =>
    let ts := Time.ofUnix (bigEndianUint32 head).toNat
    if now.after (ts.add ttl) || ts.after (now.add maxClockSkew) then .ok (false, g) else
    let g := g.reset
    let mac := (g.mac.write head).write ip.marshalBinary
    let scratch := mac.sum H g.scratch
    (connectionID.sliceFrom 4).map fun tail => (scratch.take 4 == tail, { g with mac, scratch })

end Mochi.UDP
