import Mathlib.Data.Finset.Card
import Mochi.Native.Basic

/-!
# The client-approval middleware

`clientapproval.NewHook(cfg)` builds a hook from a whitelist and a blacklist of client IDs:
it refuses a configuration that fills both lists, and one with an entry that is not 6
bytes long, naming that entry. The hook's `HandleAnnounce` fails an announce whose peer's
client ID is not in a non-empty whitelist, or is in a non-empty blacklist; `HandleScrape`
fails nothing.

A Go `string` is a sequence of bytes, so a configured entry and an error text are byte
lists. Go's `map[ClientID]struct{}` is a set of client IDs, and `len` is its size. Decoding
the YAML options (`driver.NewHook`) is not modelled. Of the request only `req.Peer.ID` is
read, and neither handler reads the response.
-/

namespace Mochi.ClientApproval

/-- A Go `string`: its bytes. -/
abbrev GoString := List UInt8

/-- The bytes of a Go string literal. -/
def goString (s : String) : GoString := s.toUTF8.toList

/-- Modelled from the spec: `bittorrent.PeerID`, the 20-byte peer ID. -/
abbrev PeerID := Mathlib.Vector UInt8 20

/-- `ClientID`, the 6 bytes that name a BitTorrent client. -/
abbrev ClientID := Mathlib.Vector UInt8 6

/-- Modelled from the spec: `NewClientID(pid)`, the first 6 bytes of the peer ID. -/
def newClientID (pid : PeerID) : ClientID := ⟨pid.toList.take 6, by simp⟩

/-- `var cid ClientID; copy(cid[:], b)`: the first bytes of `b`, as many as fit, over six
zero bytes. -/
def ClientID.copy (b : GoString) : ClientID :=
  ⟨(b ++ List.replicate 6 0).take 6, by simp⟩

/-- `clientapproval.Config`. -/
structure Config where
  whitelist : List GoString
  blacklist : List GoString
  deriving DecidableEq

/-- `bittorrent.ClientError`: an error whose text the client is sent. -/
structure ClientError where
  msg : String
  deriving DecidableEq

/-- `ErrClientUnapproved`. -/
def errClientUnapproved : ClientError := ⟨"unapproved client"⟩

/-- The text of the error `NewHook` returns for a configuration with both lists. -/
def bothListsMsg : GoString := goString "using both whitelist and blacklist is invalid"

/-- The text of the error `NewHook` returns for the entry `cidString` of the wrong length. -/
def lengthMsg (cidString : GoString) : GoString :=
  goString "client ID " ++ cidString ++ goString " must be 6 bytes"

/-- The client-approval hook: the client IDs of the whitelist and of the blacklist. -/
structure Hook where
  approved : Finset ClientID
  unapproved : Finset ClientID

/-- One of `NewHook`'s two loops, over the whitelist into `approved` or over the blacklist
into `unapproved`: each entry must be 6 bytes and is added, and the first entry of another
length ends the call with its error. -/
def addClientIDs (m : Finset ClientID) : List GoString → Except GoString (Finset ClientID)
  | [] => .ok m
  | cidString :: ids =>
    if cidString.length ≠ 6 then .error (lengthMsg cidString)
    else addClientIDs (insert (ClientID.copy cidString) m) ids

/-- `NewHook(cfg)`. -/
def newHook (cfg : Config) : Except GoString Hook :=
  if cfg.whitelist.length > 0 ∧ cfg.blacklist.length > 0 then .error bothListsMsg
  else do
    let approved ← addClientIDs ∅ cfg.whitelist
    let unapproved ← addClientIDs ∅ cfg.blacklist
    return ⟨approved, unapproved⟩

/-- The part of `bittorrent.AnnounceRequest` the hook reads: `req.Peer.ID`. -/
structure AnnounceRequest where
  peerID : PeerID

/-- `hook.HandleAnnounce`: the context back, with `ErrClientUnapproved` or nil. -/
def Hook.handleAnnounce {Ctx : Type} (h : Hook) (ctx : Ctx) (req : AnnounceRequest) :
    Ctx × Option ClientError :=
  let clientID := newClientID req.peerID
  if h.approved.card > 0 ∧ clientID ∉ h.approved then (ctx, some errClientUnapproved)
  else if h.unapproved.card > 0 ∧ clientID ∈ h.unapproved then (ctx, some errClientUnapproved)
  else (ctx, none)

/-- `hook.HandleScrape`: scrapes are not checked. -/
def Hook.handleScrape {Ctx ScrapeRequest : Type} (_h : Hook) (ctx : Ctx) (_req : ScrapeRequest) :
    Ctx × Option ClientError :=
  (ctx, none)

/-! ## Lemmas -/

/-- An entry of 6 bytes is copied whole. -/
theorem ClientID.toList_copy {b : GoString} (hb : b.length = 6) : (ClientID.copy b).toList = b := by
  simp [ClientID.copy, List.take_append_of_le_length hb.ge, ← hb]

theorem ClientID.copy_eq_iff {b : GoString} (hb : b.length = 6) {cid : ClientID} :
    ClientID.copy b = cid ↔ b = cid.toList := by
  rw [← Mathlib.Vector.toList_injective.eq_iff, ClientID.toList_copy hb]

/-- A loop of `NewHook` fails on the first entry that is not 6 bytes long, with that entry's
text, and otherwise adds the client ID of every entry. -/
theorem addClientIDs_eq (m : Finset ClientID) (ids : List GoString) :
    addClientIDs m ids = match ids.find? (fun s => s.length ≠ 6) with
      | some s => .error (lengthMsg s)
      | none => .ok (m ∪ (ids.map ClientID.copy).toFinset) := by
  induction ids generalizing m with
  | nil => simp [addClientIDs]
  | cons s ids ih =>
    by_cases hs : s.length = 6
    · simp [addClientIDs, hs, ih, Finset.insert_union, Finset.union_insert]
    · simp [addClientIDs, hs]

/-- `NewHook` refuses two non-empty lists first, then the first entry of the whitelist and
then of the blacklist that is not 6 bytes long, naming it; otherwise the hook holds the
client IDs of the two lists. -/
theorem newHook_eq (cfg : Config) : newHook cfg =
    if cfg.whitelist.length > 0 ∧ cfg.blacklist.length > 0 then .error bothListsMsg
    else match (cfg.whitelist ++ cfg.blacklist).find? (fun s => s.length ≠ 6) with
      | some s => .error (lengthMsg s)
      | none => .ok ⟨(cfg.whitelist.map ClientID.copy).toFinset,
          (cfg.blacklist.map ClientID.copy).toFinset⟩ := by
  unfold newHook
  split_ifs
  · rfl
  · rw [List.find?_append, addClientIDs_eq, addClientIDs_eq]
    cases cfg.whitelist.find? (fun s => s.length ≠ 6) <;>
    cases cfg.blacklist.find? (fun s => s.length ≠ 6) <;>
    simp [bind, Except.bind, pure, Except.pure]

end Mochi.ClientApproval
