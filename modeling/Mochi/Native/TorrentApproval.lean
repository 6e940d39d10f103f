import Mochi.Native.ClientApproval

/-!
# The torrent-approval middleware

`torrentapproval` fails an announce whose info-hash its container does not approve. The
driver's `NewHook` refuses options without an `initial_source` name or without a
`configuration`, and otherwise asks `container.GetContainer` for the named container; the
hook holds what it returns, or `NewHook` returns its error. `HandleScrape` fails nothing.

The containers and `GetContainer` are not part of the modelled sources: a container is its
`Approved` predicate, and `GetContainer` is a parameter. Decoding the YAML options, and
encoding the configuration again for the container, are not modelled: the options are the
decoded `baseConfig`. `Stop`, which stops the container when it is a `stop.Stopper`, is not
modelled either.
-/

namespace Mochi.TorrentApproval

open Mochi.ClientApproval (ClientError)

/-- `Name`. -/
def name : String := "torrent approval"

/-- `baseConfig`, decoded: the name of the container, and its configuration, `none` when the
options have no `configuration` map. -/
structure BaseConfig (Conf : Type) where
  source : String
  configuration : Option Conf

/-- Modelled from the spec: a `container.Container` of approved info-hashes, of which the
hook reads `Approved`. -/
structure Container where
  approved : InfoHash → Bool

/-- The error of options without a container name. -/
def nameMissingMsg : String := "invalid options for middleware " ++ name ++ ": name not provided"

/-- The error of options without a configuration. -/
def optionsMissingMsg : String :=
  "invalid options for middleware " ++ name ++ ": options not provided"

/-- `ErrTorrentUnapproved`. -/
def errTorrentUnapproved : ClientError := ⟨"unapproved torrent"⟩

/-- The torrent-approval hook: its container. -/
structure Hook where
  hashContainer : Container

/-- `driver.NewHook` on decoded options, `getContainer` standing for `container.GetContainer`. -/
def newHook {Conf : Type} (getContainer : String → Conf → Except String Container)
    (cfg : BaseConfig Conf) : Except String Hook :=
  if cfg.source.isEmpty then .error nameMissingMsg
  else
    match cfg.configuration with
    | none => .error optionsMissingMsg
    | some conf => (getContainer cfg.source conf).map Hook.mk

/-- The part of `bittorrent.AnnounceRequest` the hook reads: `req.InfoHash`. -/
structure AnnounceRequest where
  infoHash : InfoHash

/-- `hook.HandleAnnounce`: the context back, with `ErrTorrentUnapproved` when the container
does not approve the info-hash, nil otherwise. -/
def Hook.handleAnnounce {Ctx : Type} (h : Hook) (ctx : Ctx) (req : AnnounceRequest) :
    Ctx × Option ClientError :=
  (ctx, if !h.hashContainer.approved req.infoHash then some errTorrentUnapproved else none)

/-- `hook.HandleScrape`: scrapes are not checked. -/
def Hook.handleScrape {Ctx ScrapeRequest : Type} (_h : Hook) (ctx : Ctx) (_req : ScrapeRequest) :
    Ctx × Option ClientError :=
  (ctx, none)

end Mochi.TorrentApproval
