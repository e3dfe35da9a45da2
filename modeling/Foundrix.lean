import Foundrix.BackupSmb.Interrupted
import Foundrix.Flasher.Shown
import Foundrix.Flasher.Discover
import Foundrix.GeneratedSecrets.Variant
import Foundrix.HyprWorkspaced.Assign
import Foundrix.HyprWorkspaced.Collapse
import Foundrix.HyprWorkspaced.FirstRun
import Foundrix.HyprWorkspaced.Focus
import Foundrix.HyprWorkspaced.Gather
import Foundrix.HyprWorkspaced.Ipc
import Foundrix.HyprWorkspaced.Pins
import Foundrix.HyprWorkspaced.Registry
import Foundrix.HyprWorkspaced.Request
import Foundrix.HyprWorkspaced.SwapFailure
import Foundrix.HyprWorkspaced.Sync
import Foundrix.NftablesDns.Latest
import Foundrix.NftablesDns.Packets
import Foundrix.Nsw2.Bridge
import Foundrix.Nsw2.Report
import Foundrix.Nsw2.Rumble
import Foundrix.OidcValidator.Credentials
import Foundrix.OidcValidator.Unread
import Foundrix.OidcValidator.Verdict
import Foundrix.OperatorSecrets.Acceptance
import Foundrix.OperatorSecrets.Answered
import Foundrix.OperatorSecrets.Consumers
import Foundrix.OperatorSecrets.Redaction
import Foundrix.OperatorSecrets.Stages
import Foundrix.OperatorSecrets.Truncation
import Foundrix.OperatorSecrets.Unseen
import Foundrix.OperatorSecrets.Write
import Foundrix.Plugin.Devices
import Foundrix.Stalwart.CatchAll
import Foundrix.Stalwart.Settled
import Foundrix.Stalwart.Permission
import Foundrix.VarDisk.Boots
import Foundrix.VarDisk.Growth
import Foundrix.VarDisk.Plan
import Foundrix.VarDisk.Probe
import Foundrix.ZitadelConfigure.Adoption
import Foundrix.ZitadelConfigure.Grants
import Foundrix.ZitadelConfigure.PolicyFields
import Foundrix.ZitadelConfigure.RolesGranted
import Foundrix.ZitadelConfigure.Rotation
import Foundrix.ZitadelConfigure.Saml
import Foundrix.ZitadelConfigure.ShortWrite
import Foundrix.ZitadelConfigure.Users
import Foundrix.ZitadelConfigure.Wired
