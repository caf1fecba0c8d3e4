import Sypherstore.App.Adopt
import Sypherstore.App.Moving
import Sypherstore.App.CliRuns
import Sypherstore.Core.SharedVault
import Sypherstore.App.PageContext
import Sypherstore.App.Restore
import Sypherstore.Core.Backup
import Sypherstore.Core.Config
import Sypherstore.Core.Recovery
import Sypherstore.Core.DbFile
import Sypherstore.Core.KeyRing
import Sypherstore.Core.SwapAttack
import Sypherstore.Core.Reference
import Sypherstore.Core.Creation
import Sypherstore.App.BackgroundUnlock
import Sypherstore.App.Deletion
import Sypherstore.Core.Search
import Sypherstore.Core.ConcurrentEnrollment
import Sypherstore.Core.EnvelopeKinds
import Sypherstore.Core.UnlockSoundness
import Sypherstore.Core.BackupLog
import Sypherstore.App.Editor
import Sypherstore.App.Popup
import Sypherstore.App.PopupSteps
import Sypherstore.App.PopupRuns
import Sypherstore.App.PinAttribution
import Sypherstore.App.Shell
import Sypherstore.App.ShellRuns
import Sypherstore.App.DaemonKeeping
import Sypherstore.App.FormRuns
import Sypherstore.Core.SiteMatching
import Sypherstore.Core.HostTails
import Sypherstore.Core.Filtering
import Sypherstore.Core.MalformedMeta
import Sypherstore.Core.RecoveryText
import Sypherstore.Core.AtomicWrite
import Sypherstore.App.EditorRoundTrip
import Sypherstore.App.Targets
import Sypherstore.Core.FailedCalls
import Sypherstore.Logic.Sorting
import Sypherstore.Core.Ranking
import Sypherstore.Core.LabelMatching
import Sypherstore.Core.HostParts
import Sypherstore.Core.Urls
import Sypherstore.Core.BackupNames
import Sypherstore.Core.BackupsDir
import Sypherstore.App.BackupHistory
import Sypherstore.App.RestoreRuns
import Sypherstore.App.BackupCommand
import Sypherstore.App.Sealing
import Sypherstore.App.Delivery
import Sypherstore.Core.MetaCodec
import Sypherstore.Core.CivilDays
import Sypherstore.App.Typing
import Sypherstore.App.PopupCoherence
import Sypherstore.App.Clipboard
import Sypherstore.App.Fido
import Sypherstore.App.FidoVault
import Sypherstore.Core.RawRows
import Sypherstore.App.Damage
import Sypherstore.App.Snapshots
import Sypherstore.Core.Answers
import Sypherstore.App.DaemonLog
import Sypherstore.App.PopupRequests
import Sypherstore.App.Provenance
import Sypherstore.App.Telling
