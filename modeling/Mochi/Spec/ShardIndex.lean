import Mochi.Spec.StoreOps

/-!
# Which shard serves an info-hash and an address

`shardIndex` reads nothing of the address but its family, and it never sends the two
families of one info-hash to the same shard (`shardIndex_ne_of_is6_ne`): the IPv6 index is
the IPv4 one plus `uint32(len(ps.shards)/2)`, which is zero only when the divisor
`uint32(len(ps.shards))/2` is zero too, and then `shardIndex` panics.

With `2n` shards and `n < 2^31` the index is `BigEndian.Uint32(ih[0:4]) mod n`, plus `n` for
IPv6 (`shardIndex_eq`). `Config.Validate` admits every `n` up to `MaxInt/2`, though: at
`n = 2^31` the store has `2^32` shards, `uint32(2^32)` is `0`, and every operation panics
dividing by zero (`shardOf_two_pow_31`).
-/

namespace Mochi.Memory

variable {K : Type}

theorem newPeerStorage_length (cfg : Config) :
    (newPeerStorage cfg : PeerStore K).shards.length = (cfg.validate.shardCount * 2).toNat :=
  List.length_replicate ..

/-- `shardIndex` reads only the family of the address. -/
theorem PeerStore.shardIndex_congr_is6 (ps : PeerStore K) (ih : InfoHash) {addr addr' : Addr}
    (h : addr.is6 = addr'.is6) : ps.shardIndex ih addr = ps.shardIndex ih addr' := by
  simp only [PeerStore.shardIndex, h]

/-- `shardIndex` in `Nat`: the divisor `uint32(len(ps.shards))/2` is the length modulo
`2^32`, halved, and the IPv6 offset `uint32(len(ps.shards)/2)` the halved length modulo
`2^32`. -/
theorem PeerStore.shardIndex_toNat (ps : PeerStore K) (ih : InfoHash) (addr : Addr) :
    ps.shardIndex ih addr =
      if ps.shards.length % 2 ^ 32 / 2 = 0 then .error divideByZeroMsg
      else .ok (UInt32.ofNat ((bigEndianUint32 (ih.toList.take 4)).toNat %
        (ps.shards.length % 2 ^ 32 / 2) + if addr.is6 then ps.shards.length / 2 % 2 ^ 32 else 0)) := by
  have hd : (UInt32.ofNat ps.shards.length / 2).toNat = ps.shards.length % 2 ^ 32 / 2 := by
    rw [UInt32.toNat_div, uint32_toNat_ofNat, uint32_toNat_two]
  have hiff : UInt32.ofNat ps.shards.length / 2 = 0 ↔ ps.shards.length % 2 ^ 32 / 2 = 0 :=
    ⟨fun h0 => hd ▸ congrArg UInt32.toNat h0, fun h0 => UInt32.toNat.inj (hd.trans h0)⟩
  have hlt := (bigEndianUint32 (ih.toList.take 4)).toNat_lt_size
  change _ < 2 ^ 32 at hlt
  have hmod := Nat.mod_le (bigEndianUint32 (ih.toList.take 4)).toNat (ps.shards.length % 2 ^ 32 / 2)
  simp only [PeerStore.shardIndex, hiff]
  split_ifs
  · rfl
  · refine congrArg _ (UInt32.toNat.inj ?_)
    rw [uint32_toNat_add, UInt32.toNat_mod, hd, uint32_toNat_ofNat, uint32_toNat_ofNat]
  · refine congrArg _ (UInt32.toNat.inj ?_)
    rw [UInt32.toNat_mod, hd, uint32_toNat_ofNat]
    omega

/-- When `shardIndex` returns, it did not divide by zero, and its index is the value of the
formula. -/
theorem PeerStore.shardIndex_eq_ok {ps : PeerStore K} {ih : InfoHash} {addr : Addr}
    {idx : UInt32} (h : ps.shardIndex ih addr = .ok idx) :
    0 < ps.shards.length % 2 ^ 32 / 2 ∧
      idx.toNat = ((bigEndianUint32 (ih.toList.take 4)).toNat % (ps.shards.length % 2 ^ 32 / 2) +
        if addr.is6 then ps.shards.length / 2 % 2 ^ 32 else 0) % 2 ^ 32 := by
  rw [shardIndex_toNat] at h
  by_cases hd : ps.shards.length % 2 ^ 32 / 2 = 0
  · rw [if_pos hd] at h; cases h
  · rw [if_neg hd] at h
    cases h
    exact ⟨Nat.pos_of_ne_zero hd, uint32_toNat_ofNat _⟩

/-- When `shardIndex` returns, its index is in range, so `ps.shards[idx]` never panics. -/
theorem PeerStore.shardIndex_lt_length {ps : PeerStore K} {ih : InfoHash} {addr : Addr}
    {idx : UInt32} (h : ps.shardIndex ih addr = .ok idx) : idx.toNat < ps.shards.length := by
  obtain ⟨hd, hidx⟩ := shardIndex_eq_ok h
  have hmod := Nat.mod_lt (bigEndianUint32 (ih.toList.take 4)).toNat hd
  rw [hidx]
  split_ifs <;> omega

/-- `shardOf` panics exactly when the store is closed or `shardIndex` divides by zero. -/
theorem PeerStore.shardOf_eq_error_iff {ps : PeerStore K} {ih : InfoHash} {addr : Addr} :
    (∃ e, ps.shardOf ih addr = .error e) ↔
      ps.closed = true ∨ ∃ e, ps.shardIndex ih addr = .error e := by
  unfold PeerStore.shardOf
  cases ps.closed
  · cases hidx : ps.shardIndex ih addr with
    | error e => simp
    | ok idx => simp [List.getElem?_eq_getElem (shardIndex_lt_length hidx)]
  · simp

/-- The two families of one info-hash never share a shard. -/
theorem PeerStore.shardIndex_ne_of_is6_ne {ps : PeerStore K} {ih : InfoHash} {addr addr' : Addr}
    {idx idx' : UInt32} (h : addr.is6 ≠ addr'.is6) (hidx : ps.shardIndex ih addr = .ok idx)
    (hidx' : ps.shardIndex ih addr' = .ok idx') : idx ≠ idx' := by
  rintro rfl
  obtain ⟨hd, hi⟩ := shardIndex_eq_ok hidx
  obtain ⟨-, hi'⟩ := shardIndex_eq_ok hidx'
  have hmod := Nat.mod_lt (bigEndianUint32 (ih.toList.take 4)).toNat hd
  rw [hi] at hi'
  revert h hi'
  cases addr.is6 <;> cases addr'.is6 <;> simp <;> omega

theorem PeerStore.slot_congr_is6 (ps : PeerStore K) (ih : InfoHash) {addr addr' : Addr}
    (h : addr.is6 = addr'.is6) : ps.slot ih addr = ps.slot ih addr' := by
  simp only [PeerStore.slot, ps.shardIndex_congr_is6 ih h]

/-- Operations on one info-hash that read the same shard have addresses of one family. -/
theorem PeerStore.is6_eq_of_slot {ps : PeerStore K} {ih : InfoHash} {addr addr' : Addr} {i : ℕ}
    (h : ps.slot ih addr = .ok i) (h' : ps.slot ih addr' = .ok i) : addr.is6 = addr'.is6 := by
  obtain ⟨-, idx, hidx, rfl⟩ := PeerStore.slot_eq_ok.mp h
  obtain ⟨-, idx', hidx', hi⟩ := PeerStore.slot_eq_ok.mp h'
  by_contra hne
  exact shardIndex_ne_of_is6_ne hne hidx hidx' (UInt32.toNat.inj hi.symm)

/-- With `2n` shards and `0 < n < 2^31`: the first four bytes of the info-hash, big-endian,
modulo `n`, plus `n` for IPv6. -/
theorem PeerStore.shardIndex_eq {ps : PeerStore K} {n : ℕ} (hlen : ps.shards.length = 2 * n)
    (hn : 0 < n) (hn' : n < 2 ^ 31) (ih : InfoHash) (addr : Addr) :
    ps.shardIndex ih addr = .ok (UInt32.ofNat
      ((bigEndianUint32 (ih.toList.take 4)).toNat % n + if addr.is6 then n else 0)) := by
  have hd : ps.shards.length % 2 ^ 32 / 2 = n := by omega
  have hh : ps.shards.length / 2 % 2 ^ 32 = n := by omega
  rw [shardIndex_toNat, hd, hh, if_neg hn.ne']

/-- `Validate` keeps `2^31` shards per family, and `NewPeerStorage` then builds `2^32`
shards: `shardIndex` divides by `uint32(2^32)/2 = 0`, so every operation on every info-hash
and address panics. -/
theorem shardOf_newPeerStorage_two_pow_31 (ih : InfoHash) (addr : Addr) :
    (newPeerStorage ⟨2 ^ 31⟩ : PeerStore K).shardOf ih addr = .error divideByZeroMsg := by
  have hlen : (newPeerStorage ⟨2 ^ 31⟩ : PeerStore K).shards.length = 2 ^ 32 := by
    rw [newPeerStorage_length]
    rfl
  have hidx : (newPeerStorage ⟨2 ^ 31⟩ : PeerStore K).shardIndex ih addr =
      .error divideByZeroMsg := by
    rw [PeerStore.shardIndex_toNat, hlen, if_pos (by decide)]
  have hc : (newPeerStorage ⟨2 ^ 31⟩ : PeerStore K).closed = false := rfl
  simp only [PeerStore.shardOf, hc, hidx, Bool.false_eq_true, if_false]

theorem shardOf_two_pow_31 (ih : InfoHash) (addr : Addr) :
    (Config.validate ⟨2 ^ 31⟩).shardCount = 2 ^ 31 ∧
      (newPeerStorage ⟨2 ^ 31⟩ : PeerStore K).shardOf ih addr = .error divideByZeroMsg := by
  exact ⟨by decide, shardOf_newPeerStorage_two_pow_31 ih addr⟩

end Mochi.Memory
