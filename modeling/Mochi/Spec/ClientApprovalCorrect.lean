import Mochi.Native.ClientApproval

/-!
# Client approval decides by its configuration

`NewHook` fails exactly on a configuration with two non-empty lists or an entry that is not
6 bytes long. The hook it builds holds the client IDs of the entries, and an entry of 6 bytes
is its client ID's bytes (`ClientID.copy_eq_iff`). So `HandleAnnounce` rejects a peer
exactly when its client ID is the bytes of no whitelist entry, the whitelist being
non-empty, or of some blacklist entry, the blacklist being non-empty.
-/

namespace Mochi.ClientApproval

/-- The client IDs of entries of 6 bytes are the entries. -/
theorem mem_copies {ids : List GoString} (hl : ∀ s ∈ ids, s.length = 6) {cid : ClientID} :
    cid ∈ (ids.map ClientID.copy).toFinset ↔ ∃ s ∈ ids, cid.toList = s := by
  simp only [List.mem_toFinset, List.mem_map]
  exact exists_congr fun s =>
    and_congr_right fun hs => (ClientID.copy_eq_iff (hl s hs)).trans eq_comm

theorem card_copies_pos {ids : List GoString} :
    0 < (ids.map ClientID.copy).toFinset.card ↔ ids ≠ [] := by
  simp [Finset.card_pos, List.toFinset_nonempty_iff]

theorem newHook_eq_error_iff (cfg : Config) :
    (∃ e, newHook cfg = .error e) ↔
      (cfg.whitelist ≠ [] ∧ cfg.blacklist ≠ []) ∨
        ∃ s ∈ cfg.whitelist ++ cfg.blacklist, s.length ≠ 6 := by
  rw [newHook_eq]
  by_cases hboth : cfg.whitelist.length > 0 ∧ cfg.blacklist.length > 0
  · rw [if_pos hboth]
    simp only [gt_iff_lt, List.length_pos] at hboth
    exact iff_of_true ⟨_, rfl⟩ (.inl hboth)
  · rw [if_neg hboth]
    simp only [gt_iff_lt, List.length_pos] at hboth
    rw [or_iff_right hboth]
    split
    · rename_i s hf
      exact iff_of_true ⟨_, rfl⟩
        ⟨s, List.mem_of_find?_eq_some hf, by simpa using List.find?_some hf⟩
    · rename_i hf
      exact iff_of_false (fun ⟨_, he⟩ => nomatch he) (by simpa using List.find?_eq_none.mp hf)

theorem newHook_eq_ok {cfg : Config} {h : Hook} (hok : newHook cfg = .ok h) :
    (∀ s ∈ cfg.whitelist ++ cfg.blacklist, s.length = 6) ∧
      h = ⟨(cfg.whitelist.map ClientID.copy).toFinset, (cfg.blacklist.map ClientID.copy).toFinset⟩ := by
  rw [newHook_eq] at hok
  split at hok
  · cases hok
  · split at hok
    · cases hok
    · rename_i hf
      cases hok
      exact ⟨by simpa using List.find?_eq_none.mp hf, rfl⟩

/-- `NewHook(cfg)` fails exactly when both lists are non-empty or some entry is not 6 bytes
long. A hook it builds returns the context it is given; its `HandleAnnounce` returns
`ErrClientUnapproved` exactly when the whitelist is non-empty and the peer's client ID is
the bytes of none of its entries, or the blacklist is non-empty and the client ID is the
bytes of one of its entries, and nil otherwise; its `HandleScrape` returns nil. -/
theorem clientApproval_decides (cfg : Config) :
    ((∃ e, newHook cfg = .error e) ↔
      (cfg.whitelist ≠ [] ∧ cfg.blacklist ≠ []) ∨
        ∃ s ∈ cfg.whitelist ++ cfg.blacklist, s.length ≠ 6) ∧
    ∀ h, newHook cfg = .ok h →
      (∀ {Ctx : Type} (ctx : Ctx) (req : AnnounceRequest),
        h.handleAnnounce ctx req =
          (ctx, if (cfg.whitelist ≠ [] ∧
                  ∀ s ∈ cfg.whitelist, (newClientID req.peerID).toList ≠ s) ∨
                (cfg.blacklist ≠ [] ∧ ∃ s ∈ cfg.blacklist, (newClientID req.peerID).toList = s)
            then some errClientUnapproved else none)) ∧
      ∀ {Ctx ScrapeRequest : Type} (ctx : Ctx) (req : ScrapeRequest),
        h.handleScrape ctx req = (ctx, none) := by
  refine ⟨newHook_eq_error_iff cfg, fun h hok => ⟨fun ctx req => ?_, fun _ _ => rfl⟩⟩
  obtain ⟨hl, rfl⟩ := newHook_eq_ok hok
  have hw : ∀ s ∈ cfg.whitelist, s.length = 6 := fun s hs => hl s (List.mem_append_left _ hs)
  have hb : ∀ s ∈ cfg.blacklist, s.length = 6 := fun s hs => hl s (List.mem_append_right _ hs)
  simp only [Hook.handleAnnounce, gt_iff_lt, card_copies_pos, mem_copies hw, mem_copies hb,
    not_exists, not_and, ite_or]
  split_ifs <;> rfl

/-- A whitelist of the one client `AZ2060` admits a peer whose ID starts with it and rejects
one whose ID starts with `TR3000`. -/
example :
    (newHook ⟨[[65, 90, 50, 48, 54, 48]], []⟩).map (fun h =>
      ((h.handleAnnounce () ⟨⟨[65, 90, 50, 48, 54, 48] ++ List.replicate 14 0, by decide⟩⟩).2,
        (h.handleAnnounce () ⟨⟨[84, 82, 51, 48, 48, 48] ++ List.replicate 14 0, by decide⟩⟩).2)) =
      .ok (none, some errClientUnapproved) := by
  rfl

end Mochi.ClientApproval
