import DepotDownloader.Steam.Depot.NameForms
import DepotDownloader.Steam.Depot.ManifestGrammar
import DepotDownloader.Steam.Depot.ChunkContainers
import DepotDownloader.Steam.Types.BinaryGrammar
import DepotDownloader.Steam.Types.TextCut
import DepotDownloader.Steam.Client.PacketAgreement
import DepotDownloader.Steam.Transport.Tcp
import DepotDownloader.Steam.Client.DepotKeys
import DepotDownloader.Steam.Client.Bundles
import DepotDownloader.Steam.Client.Unpacking
import DepotDownloader.SteamClient.Download.Confinement
import DepotDownloader.SteamClient.Download.Idempotence
import DepotDownloader.SteamClient.Download.Resume
import DepotDownloader.SteamClient.Download.Holes
import DepotDownloader.SteamClient.Download.Resolution
import DepotDownloader.SteamClient.Download.Retry
import DepotDownloader.SteamClient.Download.DeferredWrites
import DepotDownloader.SteamClient.Download.EventAccounts
import DepotDownloader.SteamClient.CacheHistory
import DepotDownloader.Cli.SharedOutput
import DepotDownloader.Cli.EncryptedUpgrade
import DepotDownloader.Cli.DepotSelection
import DepotDownloader.SteamFfi.Sessions
import DepotDownloader.Steam.Client.Login
import DepotDownloader.Steam.Client.Pics
import DepotDownloader.Cli.Login
import DepotDownloader.Cli.LoginRuns
import DepotDownloader.Cli.LoginTokens
import DepotDownloader.Foundation.Permits
import DepotDownloader.Foundation.Stuttering
import DepotDownloader.Steam.Cdn
import DepotDownloader.Steam.Client.SessionReplay
import DepotDownloader.Steam.Transport.Recording
import DepotDownloader.SteamClient.Download.Filtering
import DepotDownloader.SteamClient.Download.Permits
import DepotDownloader.Cli.Listing
